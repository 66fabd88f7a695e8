import BabyfacePro.Stream.Session

/-!
# The queue of OUT URBs

The OUT URBs of one session go round: the handler of a completed URB fills its buffer or clears it,
and hands it to `usb_submit_urb` again. An `OutQueue` is the card with those buffers, and with what a
reader of the bus would note: what each buffer was last given, and the submissions in their order.

The handlers run one at a time, as the USB core gives back the URBs of an endpoint, but a trigger
may come between the fill of a buffer and its submission. `played_in_order` says which runs play
every frame once and in order; `error_repeats_audio` is a run that does not.
-/

namespace BabyfacePro

open Ring

/-! ## Completions -/

/-- The count of bad URBs after one more. -/
def urbErrored (c : Chip) : Chip := { c with urb_err := c.urb_err + 1 }

/-- `babyface_urb_error`: whether the URB must not be resubmitted. -/
def babyfaceUrbError (c : Chip) : Bool × Chip :=
  (decide (BF_URB_ERR_STOP ≤ c.urb_err + 1), urbErrored c)

/-- `babyface_urb_ok`. -/
def babyfaceUrbOk (c : Chip) : Chip :=
  if c.urb_err ≠ 0 ∧ c.urb_err < BF_URB_ERR_STOP then { c with urb_err := 0 } else c

/-- `babyface_urb_resubmit_failed`. -/
def babyfaceUrbResubmitFailed (c : Chip) : Chip := { c with urb_err := BF_URB_ERR_STOP }

/-- `bf_out_lost`. -/
def bfOutLost (c : Chip) : Chip := { c with out_inflight := c.out_inflight - 1 }

/-! ## The queue -/

/-- One START to STOP of the playback substream, with the parameters that it runs on. -/
structure Run where
  number : ℕ
  rt : Runtime
  deriving DecidableEq, Repr

/-- What the buffer of a URB was last given. -/
inductive Load where
  | silence
  /-- The frames of a run from the number `first` on. -/
  | frames (run : Run) (first count : ℕ)
  deriving DecidableEq, Repr

/-- What happens on the bus and to the substream. -/
inductive OutEvent where
  | start (run : Run)
  | stop
  | submit (load : Load) (data : Mem)

/-- The card with its OUT URBs. -/
structure OutQueue where
  card : Card
  /-- The ring, `runtime->dma_area`. -/
  area : Mem
  /-- `chip->urbs_out`, with their buffers. -/
  urbs_out : ℕ → OutUrb
  /-- How many URBs `babyface_stream_start` has submitted. -/
  submitted : ℕ := 0
  inflight : ℕ → Bool := fun _ => false
  /-- The URB whose handler has not come to its resubmission yet. -/
  handling : Option ℕ := none
  /-- What each buffer was last given. -/
  load : ℕ → Load := fun _ => .silence
  /-- The last START. -/
  run : Run := ⟨0, ⟨0, 0, 0, 0⟩⟩
  /-- The frames that were copied since the last START. -/
  total : ℕ := 0
  log : List OutEvent := []

namespace OutQueue

/-- The state of the playback substream. -/
abbrev state (q : OutQueue) : PcmState := q.card.state .playback

/-- The parameters of the playback substream. -/
abbrev rt (q : OutQueue) : Runtime := q.card.runtime .playback

/-- Whether a handler finds a playback substream that runs. -/
def playing (q : OutQueue) : Bool := q.card.chip.subs .playback && q.state.isRunning .playback

/-- The frames in the buffer of a URB. -/
def count (q : OutQueue) (i : ℕ) : ℕ := (q.urbs_out i).count q.card.chip.frame_bytes

/-- A new state of the driver. -/
def withChip (q : OutQueue) (c : Chip) : OutQueue := { q with card := { q.card with chip := c } }

/-- A completed URB in the hands of its handler. -/
def completed (q : OutQueue) (i : ℕ) : OutQueue :=
  { q with inflight := Function.update q.inflight i false, handling := some i }

/-- A buffer with new contents. -/
def refilled (q : OutQueue) (i : ℕ) (load : Load) (data : Mem) : OutQueue :=
  { q with
    urbs_out := Function.update q.urbs_out i { q.urbs_out i with transfer_buffer := data }
    load := Function.update q.load i load }

/-- A URB handed to `usb_submit_urb`. -/
def handed (q : OutQueue) (i : ℕ) (ok : Bool) : OutQueue :=
  { q with
    inflight := Function.update q.inflight i ok
    log := q.log ++ [.submit (q.load i) (q.urbs_out i).transfer_buffer] }

/-- The buffer of a good URB, filled by the playback substream or cleared. -/
def fill (w : ℕ) (i : ℕ) (q : OutQueue) : OutQueue :=
  let (_, fed, c, data) :=
    babyfacePlaybackUrb w q.playing q.rt q.area (q.urbs_out i) q.card.chip
  if fed then
    { (q.withChip c).refilled i (.frames q.run q.total (q.count i)) data with
      total := q.total + q.count i }
  else q.refilled i .silence (memset data 0 0 (q.urbs_out i).transfer_buffer_length)

/-- `babyface_complete_out` for a URB of status 0, up to its resubmission. -/
def completeGood (w : ℕ) (i : ℕ) (q : OutQueue) : OutQueue :=
  ((q.completed i).withChip (babyfaceUrbOk q.card.chip)).fill w i

/-- `babyface_complete_out` for a transient error, up to its resubmission. -/
def completeBad (i : ℕ) (q : OutQueue) : OutQueue :=
  let (stop, c) := babyfaceUrbError q.card.chip
  let q := (q.completed i).withChip c
  if stop then { q.withChip (bfOutLost c) with handling := none } else q

/-- The resubmission at the end of `babyface_complete_out`; `ok` is the outcome of
`usb_submit_urb`. -/
def resubmit (ok : Bool) (i : ℕ) (q : OutQueue) : OutQueue :=
  let q := { q with handling := none }
  if q.card.chip.streaming then
    let q := q.handed i ok
    if ok then q else q.withChip (babyfaceUrbResubmitFailed (bfOutLost q.card.chip))
  else q

end OutQueue

/-- What may happen next to the playback substream and its URBs. -/
inductive OutAct where
  /-- The application writes the ring. -/
  | write (area : Mem)
  /-- The core sets parameters that leave the session running. -/
  | setup (params : Runtime)
  | prepare
  | start
  | drain
  /-- A stop, a drop, an xrun or a suspend. -/
  | stop (st : PcmState)
  /-- `babyface_stream_start` submits its next URB. -/
  | first (ok : Bool)
  | good (i : ℕ)
  /-- A transient error. -/
  | bad (i : ℕ)
  /-- The URB was killed, or the device is gone. -/
  | retired (i : ℕ)
  | resubmit (ok : Bool)
  /-- What the rest of the driver and of the core does, the handlers of the IN URBs included. -/
  | rest (k : Card)
  | kill

/-- A substream that has parameters. -/
def PcmState.HasParams (st : PcmState) : Prop := st ≠ .open ∧ st ≠ .disconnected

/-- The rest of the driver leaves alone what the OUT URBs of a session rest on, and only moves a
playback substream that does not run. -/
structure KeptByRest (k k' : Card) : Prop where
  streaming : k'.chip.streaming = k.chip.streaming
  frame_bytes : k'.chip.frame_bytes = k.chip.frame_bytes
  urb_frames_min : k'.chip.urb_frames_min = k.chip.urb_frames_min
  hw_ptr : k'.chip.hw_ptr .playback = k.chip.hw_ptr .playback
  prev_period : k'.chip.prev_period .playback = k.chip.prev_period .playback
  runtime : k'.runtime .playback = k.runtime .playback
  state : k'.state .playback = k.state .playback ∨
    (k.state .playback).isRunning .playback = false ∧
      (k'.state .playback).isRunning .playback = false ∧ k'.state .playback ≠ .prepared ∧
      ((k'.state .playback).HasParams → (k.state .playback).HasParams)

/-- When an action may happen. -/
def OutAct.enabled (q : OutQueue) : OutAct → Prop
  | .write _ | .kill => True
  | .rest k => KeptByRest q.card k
  | .setup params => q.state.isRunning .playback = false ∧ Admitted q.card.chip params
  | .prepare => q.state.HasParams ∧ q.state.isRunning .playback = false ∧
      q.card.chip.streaming = true ∧ ¬ Misfits q.card .playback
  | .start => q.state = .prepared ∧ q.card.chip.streaming = true ∧ ¬ Misfits q.card .playback
  | .drain => q.state = .running
  | .stop st => q.state.isRunning .playback = true ∧ st.isRunning .playback = false
  | .first _ => q.submitted < q.card.chip.urbs_active ∧ q.card.chip.streaming = true
  | .good i | .bad i => q.inflight i = true ∧ q.handling = none
  | .retired i => q.inflight i = true
  | .resubmit _ => q.handling.isSome

/-- What an action does. -/
def OutQueue.act (w : ℕ) (q : OutQueue) : OutAct → OutQueue
  | .write area => { q with area := area }
  | .setup params => { q with card := withParams .playback params q.card }
  | .prepare => { q with card := inState .playback .prepared (ptrReset .playback q.card) }
  | .start =>
    let run : Run := ⟨q.run.number + 1, q.rt⟩
    { q with
      card := inState .playback .running (ptrReset .playback q.card)
      run := run
      total := 0
      log := q.log ++ [.start run] }
  | .drain => { q with card := inState .playback .draining q.card }
  | .stop st => { q with card := inState .playback st q.card, log := q.log ++ [.stop] }
  | .first ok => { q.handed q.submitted ok with submitted := q.submitted + 1 }
  | .good i => q.completeGood w i
  | .bad i => q.completeBad i
  | .retired i => { q with inflight := Function.update q.inflight i false }
  | .resubmit ok => q.handling.elim q (q.resubmit ok ·)
  | .rest k => { q with card := k }
  | .kill => { q with card := killed q.card }

/-- The steps whose actions all meet a condition. -/
def OutStep (w : ℕ) (ok : OutQueue → OutAct → Prop) (q q' : OutQueue) : Prop :=
  ∃ a : OutAct, a.enabled q ∧ ok q a ∧ q' = q.act w a

/-- The runs of such steps. -/
abbrev OutSteps (w : ℕ) (ok : OutQueue → OutAct → Prop) : OutQueue → OutQueue → Prop :=
  Relation.ReflTransGen (OutStep w ok)

/-- A session that `babyface_stream_start` has just marked live: its buffers are cleared. -/
structure OutQueue.Fresh (q : OutQueue) : Prop where
  streaming : q.card.chip.streaming = true
  geometry : Geometry q.card.chip.toStream
  stopped : q.state.isRunning .playback = false
  admitted : q.state.HasParams → Admitted q.card.chip q.rt
  length : ∀ i, (q.urbs_out i).transfer_buffer_length =
    q.card.chip.frame_bytes * q.card.chip.urb_frames
  cleared : ∀ i a, a < (q.urbs_out i).transfer_buffer_length → (q.urbs_out i).transfer_buffer a = 0
  load : q.load = fun _ => .silence
  submitted : q.submitted = 0
  inflight : q.inflight = fun _ => false
  handling : q.handling = none
  log : q.log = []

/-! ## What is played -/

/-- The run that plays after the events `log`. -/
def nowPlaying : List OutEvent → Option Run :=
  List.foldl (fun run e => match e with
    | .start run => some run
    | .stop => none
    | .submit _ _ => run) none

/-- The frames of a run in one event. -/
def OutEvent.frames (run : Run) : OutEvent → ℕ
  | .submit (.frames run' _ count) _ => if run' = run then count else 0
  | _ => 0

/-- The frames of a run that the events submitted. -/
def played (run : Run) (log : List OutEvent) : ℕ := (log.map (OutEvent.frames run)).sum

/-- Every submission carries silence, or the next frames of the run that plays. -/
def PlayedInOrder (log : List OutEvent) : Prop :=
  ∀ pre load data post, log = pre ++ .submit load data :: post →
    load = .silence ∨
      ∃ run count, nowPlaying pre = some run ∧ load = .frames run (played run pre) count

/-- What a buffer of `length` bytes holds for a load: the frames are those of the ring. -/
def Carries (frame_bytes length : ℕ) : Load → Mem → Prop
  | .silence, data => ∀ a < length, data a = 0
  | .frames run first count, data => count = length / frame_bytes ∧
      ∃ area urb, OutUrb.transfer_buffer_length urb = length ∧
        Fed run.rt frame_bytes first area urb data

/-- The steps that play right: no transient error hits a URB that carries audio, unless it is the one
that stops the session; the substream is not stopped between the fill of a URB and its submission;
and a URB is only filled while the counter stands on the slot of the next frame. -/
def PlaysRight (w : ℕ) (q : OutQueue) : OutAct → Prop
  | .bad i => q.load i = .silence ∨ BF_URB_ERR_STOP ≤ q.card.chip.urb_err + 1
  | .stop _ => ∀ i, q.handling = some i → q.load i = .silence
  | .good _ => q.playing = true → q.total % 2 ^ w % q.rt.buffer_size = q.total % q.rt.buffer_size
  | _ => True

/-! ## The order of the submissions -/

/-- Which run plays after one more event. -/
theorem nowPlaying_append (log : List OutEvent) (e : OutEvent) :
    nowPlaying (log ++ [e]) = match e with
      | .start run => some run
      | .stop => none
      | .submit _ _ => nowPlaying log := by
  rw [nowPlaying, List.foldl_append]
  rfl

/-- What a run has played after one more event. -/
theorem played_append (run : Run) (log : List OutEvent) (e : OutEvent) :
    played run (log ++ [e]) = played run log + e.frames run := by
  simp [played]

/-- An event more keeps the order, if it is the turn of what it submits. -/
theorem PlayedInOrder.append {log : List OutEvent} (h : PlayedInOrder log) {e : OutEvent}
    (he : ∀ load data, e = .submit load data → load = .silence ∨
      ∃ run count, nowPlaying log = some run ∧ load = .frames run (played run log) count) :
    PlayedInOrder (log ++ [e]) := by
  intro pre load data post hsplit
  rcases List.eq_nil_or_concat post with rfl | ⟨post', last, rfl⟩
  · obtain ⟨rfl, hlast⟩ := List.append_inj' hsplit rfl
    exact he load data (List.singleton_inj.mp hlast)
  · have hinit : log = pre ++ .submit load data :: post' := by
      have happ : log ++ [e] = (pre ++ .submit load data :: post') ++ [last] := by
        rw [hsplit, List.append_assoc, List.cons_append, List.concat_eq_append]
      exact (List.append_inj' happ rfl).1
    exact h pre load data post' hinit

/-- A substream that runs has its parameters. -/
theorem hasParams_of_isRunning {st : PcmState} {d : Dir} (h : st.isRunning d = true) :
    st.HasParams := by
  constructor
  · rintro rfl
    exact absurd h Bool.false_ne_true
  · rintro rfl
    exact absurd h Bool.false_ne_true

/-! ## The buffers over a run -/

/-- What the buffers hold, and the counter that fills them. -/
structure Filled (w fb len : ℕ) (q : OutQueue) : Prop where
  frame_bytes : q.card.chip.frame_bytes = fb
  words : fb / 4 * 4 = fb
  least : 0 < q.card.chip.urb_frames_min
  sized : q.state.HasParams → 0 < q.rt.buffer_size
  counted : q.state.isRunning .playback = true → Counted w q.rt .playback q.total q.card.chip
  run : q.state.isRunning .playback = true → q.run.rt = q.rt
  length : ∀ i, (q.urbs_out i).transfer_buffer_length = len
  buffers : ∀ i, Carries fb len (q.load i) (q.urbs_out i).transfer_buffer
  sent : ∀ load data, OutEvent.submit load data ∈ q.log → Carries fb len load data

section Filled

variable {w fb len : ℕ} {q : OutQueue}

/-- A buffer that was admitted is not empty. -/
theorem buffer_pos {rt : Runtime} {c : Chip} (hmin : 0 < c.urb_frames_min)
    (h : Admitted c rt) : 0 < rt.buffer_size := by
  have hperiod := h.period_size.1
  have hperiods := h.periods.1
  omega

/-- A state whose buffers and submissions are the same. -/
theorem Filled.of_same (h : Filled w fb len q) {q' : OutQueue}
    (hurbs : q'.urbs_out = q.urbs_out) (hload : q'.load = q.load)
    (hlog : ∀ load data, OutEvent.submit load data ∈ q'.log → OutEvent.submit load data ∈ q.log)
    (hfb : q'.card.chip.frame_bytes = q.card.chip.frame_bytes)
    (hmin : q'.card.chip.urb_frames_min = q.card.chip.urb_frames_min)
    (hsized : q'.state.HasParams → 0 < q'.rt.buffer_size)
    (hcounted : q'.state.isRunning .playback = true →
      Counted w q'.rt .playback q'.total q'.card.chip ∧ q'.run.rt = q'.rt) :
    Filled w fb len q' where
  frame_bytes := hfb.trans h.frame_bytes
  words := h.words
  least := by rw [hmin]; exact h.least
  sized := hsized
  counted hrun := (hcounted hrun).1
  run hrun := (hcounted hrun).2
  length := by rw [hurbs]; exact h.length
  buffers := by rw [hurbs, hload]; exact h.buffers
  sent load data hmem := h.sent load data (hlog load data hmem)

/-- A URB that is handed over holds what it was given. -/
theorem Filled.handed (h : Filled w fb len q) (i : ℕ) (ok : Bool) :
    Filled w fb len (q.handed i ok) where
  frame_bytes := h.frame_bytes
  words := h.words
  least := h.least
  sized := h.sized
  counted := h.counted
  run := h.run
  length := h.length
  buffers := h.buffers
  sent load data hmem := by
    rcases List.mem_append.mp hmem with hold | hnew
    · exact h.sent load data hold
    · obtain ⟨rfl, rfl⟩ : load = q.load i ∧ data = (q.urbs_out i).transfer_buffer := by
        simpa using hnew
      exact h.buffers i

/-- A buffer that is refilled. -/
theorem Filled.refilled (h : Filled w fb len q) (i : ℕ) {load : Load} {data : Mem}
    (hcarries : Carries fb len load data) :
    Filled w fb len (q.refilled i load data) where
  frame_bytes := h.frame_bytes
  words := h.words
  least := h.least
  sized := h.sized
  counted := h.counted
  run := h.run
  length j := by
    unfold OutQueue.refilled
    dsimp only
    -- The buffer that is refilled has the new load; the others are those they were.
    by_cases hj : j = i
    · rw [hj, Function.update_self]
      exact h.length i
    · rw [Function.update_of_ne hj]
      exact h.length j
  buffers j := by
    unfold OutQueue.refilled
    dsimp only
    by_cases hj : j = i
    · rw [hj, Function.update_self, Function.update_self]
      exact hcarries
    · rw [Function.update_of_ne hj, Function.update_of_ne hj]
      exact h.buffers j
  sent := h.sent

end Filled

/-! ## What a handler does -/

/-- A good URB leaves everything but the count of errors alone. -/
theorem babyfaceUrbOk_eq (c : Chip) :
    ∃ err, babyfaceUrbOk c = { c with urb_err := err } := by
  unfold babyfaceUrbOk
  split
  · exact ⟨0, rfl⟩
  · exact ⟨c.urb_err, rfl⟩

/-- A handler that finds no substream that runs clears the buffer. -/
theorem OutQueue.fill_silent (w i : ℕ) {q : OutQueue} (h : q.playing = false) :
    q.fill w i = q.refilled i .silence
      (memset (q.urbs_out i).transfer_buffer 0 0 (q.urbs_out i).transfer_buffer_length) := by
  simp only [OutQueue.fill, h, babyfacePlaybackUrb, Bool.not_false, if_true, Bool.false_eq_true,
    if_false]

/-- A handler that finds a substream that runs fills the buffer with its next frames. -/
theorem OutQueue.fill_playing {w fb len : ℕ} {q : OutQueue} (hq : Filled w fb len q)
    (i : ℕ) (h : q.playing = true)
    (hslot : q.total % 2 ^ w % q.rt.buffer_size = q.total % q.rt.buffer_size) :
    ∃ data, Carries fb len (.frames q.run q.total (q.count i)) data ∧
      q.fill w i =
        { (q.withChip (advance w q.rt .playback (q.count i) q.card.chip).2).refilled i
            (.frames q.run q.total (q.count i)) data with
          total := q.total + q.count i } := by
  have hrunning : q.state.isRunning .playback = true := by
    unfold OutQueue.playing at h
    exact (Bool.and_eq_true_iff.mp h).2
  -- The frames are whole words, so the copy by words is the copy by frames.
  have hwords : q.card.chip.frame_bytes / 4 * 4 = q.card.chip.frame_bytes := by
    rw [hq.frame_bytes, hq.words]
  -- The position in the ring is the same whether it is counted with or without the wrap at `w` bits.
  have hpos : q.card.chip.hw_ptr .playback % q.rt.buffer_size = q.total % q.rt.buffer_size := by
    rw [(hq.counted hrunning).hw_ptr, hslot]
  have hbuf : 0 < q.rt.buffer_size := hq.sized (hasParams_of_isRunning hrunning)
  obtain ⟨data, hurb, hfed⟩ := babyfacePlaybackUrb_fed (w := w) hbuf hwords hpos q.area (q.urbs_out i)
  refine ⟨data, ⟨?_, q.area, q.urbs_out i, hq.length i, ?_⟩, ?_⟩
  · rw [OutQueue.count, OutUrb.count, hq.length i, hq.frame_bytes]
  · rw [hq.run hrunning, ← hq.frame_bytes]
    exact hfed
  · simp only [OutQueue.fill, h, hurb, if_true]
    rfl

/-- A handler of a transient error keeps the buffer as it is. -/
theorem OutQueue.completeBad_eq (i : ℕ) (q : OutQueue) :
    q.completeBad i =
      if BF_URB_ERR_STOP ≤ q.card.chip.urb_err + 1 then
        { (q.completed i).withChip (bfOutLost (urbErrored q.card.chip)) with handling := none }
      else (q.completed i).withChip (urbErrored q.card.chip) := by
  unfold OutQueue.completeBad babyfaceUrbError
  by_cases hstop : BF_URB_ERR_STOP ≤ q.card.chip.urb_err + 1
  · rw [decide_eq_true hstop, if_pos hstop]
    rfl
  · rw [decide_eq_false hstop, if_neg hstop]
    rfl

/-- A URB only moves the counters on. -/
theorem advance_eq (w : ℕ) (rt : Runtime) (d : Dir) (n : ℕ) (c : Chip) :
    ∃ ptr period, (advance w rt d n c).2 = { c with hw_ptr := ptr, prev_period := period } := by
  unfold advance
  dsimp only
  split
  · exact ⟨_, _, rfl⟩
  · exact ⟨_, c.prev_period, rfl⟩

section Filled

variable {w fb len : ℕ} {q : OutQueue}

/-- A URB is filled with the frames that are next. -/
theorem Filled.fill (h : Filled w fb len q) (i : ℕ)
    (hslot : q.playing = true → q.total % 2 ^ w % q.rt.buffer_size = q.total % q.rt.buffer_size) :
    Filled w fb len (q.fill w i) := by
  cases hplaying : q.playing with
  | false =>
    -- Silence is zero in every byte of the transfer buffer.
    rw [OutQueue.fill_silent w i hplaying]
    refine h.refilled i fun a ha => ?_
    have hat := memset_at (q.urbs_out i).transfer_buffer 0 (0 : U8)
      (n := (q.urbs_out i).transfer_buffer_length) (i := a) (by rwa [h.length i])
    rwa [Nat.zero_add] at hat
  | true =>
    obtain ⟨data, hcarries, hfill⟩ := OutQueue.fill_playing h i hplaying (hslot hplaying)
    obtain ⟨ptr, period, hadvance⟩ := advance_eq w q.rt .playback (q.count i) q.card.chip
    -- The count and the position go on by the frames of this URB before it is refilled.
    have hnext : Filled w fb len { (q.withChip (advance w q.rt .playback (q.count i)
        q.card.chip).2) with total := q.total + q.count i } := by
      refine h.of_same rfl rfl (fun _ _ hmem => hmem) ?_ ?_ h.sized fun hrun =>
        ⟨(advance_spec (h.counted hrun) _).1, h.run hrun⟩
      · exact advance_frame_bytes _
      · rw [hadvance]
        rfl
    rw [hfill]
    exact hnext.refilled i hcarries

/-- A new state of the driver that keeps what the OUT URBs rest on. -/
theorem Filled.carded (h : Filled w fb len q) {k : Card} (hk : KeptByRest q.card k) :
    Filled w fb len { q with card := k } := by
  have hrt : k.runtime .playback = q.rt := hk.runtime
  refine h.of_same rfl rfl (fun _ _ hmem => hmem) hk.frame_bytes hk.urb_frames_min ?_ ?_
  · intro hparams
    have hsize : 0 < q.rt.buffer_size := by
      -- A substream that changed its state on the way has kept its parameters.
      rcases hk.state with hstate | ⟨_, _, _, himp⟩
      · exact h.sized (by rwa [OutQueue.state, ← hstate])
      · exact h.sized (himp hparams)
    simpa only [OutQueue.rt, hk.runtime] using hsize
  · intro hrun
    -- A substream that runs has not changed its state, so neither pointer nor period has moved.
    rcases hk.state with hstate | ⟨_, hidle, _⟩
    · have hrun : q.state.isRunning .playback = true := by
        rw [OutQueue.state, ← hstate]
        exact hrun
      have hcounted := h.counted hrun
      simp only [OutQueue.rt, hk.runtime]
      refine ⟨⟨hk.hw_ptr.trans hcounted.hw_ptr, ?_⟩, h.run hrun⟩
      rw [hk.prev_period, hk.hw_ptr]
      exact hcounted.prev_period
    · exact absurd (hrun.symm.trans hidle) (by decide)

/-- A substream that does not run. -/
theorem Filled.idle (h : Filled w fb len q) {st : PcmState} (hidle : st.isRunning .playback = false)
    (hst : st.HasParams → q.state.HasParams) (e : List OutEvent)
    (he : ∀ load data, OutEvent.submit load data ∉ e) {k : Card}
    (hfb : k.chip.frame_bytes = q.card.chip.frame_bytes)
    (hmin : k.chip.urb_frames_min = q.card.chip.urb_frames_min)
    (hrt : k.runtime = q.card.runtime) :
    Filled w fb len { q with card := inState .playback st k, log := q.log ++ e } := by
  have hstate : (inState .playback st k).state .playback = st := by simp [inState]
  refine h.of_same rfl rfl ?_ hfb hmin ?_ fun hrun => ?_
  · intro load data hmem
    exact (List.mem_append.mp hmem).resolve_right (he load data)
  · intro hparams
    have hsize := h.sized (hst (by rwa [OutQueue.state, hstate] at hparams))
    simpa only [OutQueue.rt, inState, hrt] using hsize
  · rw [OutQueue.state, hstate, hidle] at hrun
    exact absurd hrun Bool.false_ne_true

/-- A URB in the hands of its handler, which has counted its status. -/
theorem Filled.completed (h : Filled w fb len q) (i : ℕ) {c : Chip} {err : ℤ}
    (hc : c = { q.card.chip with urb_err := err }) :
    Filled w fb len ((q.completed i).withChip c) := by
  rw [hc]
  exact h.of_same rfl rfl (fun _ _ hmem => hmem) rfl rfl h.sized fun hrun =>
    ⟨⟨(h.counted hrun).hw_ptr, (h.counted hrun).prev_period⟩, h.run hrun⟩

/-- The end of a handler. -/
theorem Filled.resubmit (h : Filled w fb len q) (ok : Bool) (i : ℕ) :
    Filled w fb len (q.resubmit ok i) := by
  have hdone : Filled w fb len { q with handling := none } :=
    h.of_same rfl rfl (fun _ _ hmem => hmem) rfl rfl h.sized fun hrun => ⟨h.counted hrun, h.run hrun⟩
  have hhanded : Filled w fb len (OutQueue.handed { q with handling := none } i ok) :=
    hdone.handed i ok
  unfold OutQueue.resubmit
  dsimp only
  by_cases hlive : q.card.chip.streaming = true
  · rw [if_pos hlive]
    cases ok with
    | true => exact hhanded
    | false =>
      exact hhanded.of_same rfl rfl (fun _ _ hmem => hmem) rfl rfl h.sized fun hrun =>
        ⟨⟨(h.counted hrun).hw_ptr, (h.counted hrun).prev_period⟩, h.run hrun⟩
  · rw [if_neg hlive]
    exact hdone

/-- Every action keeps the buffers right. -/
theorem Filled.act (h : Filled w fb len q) (a : OutAct) (ha : a.enabled q) (hok : PlaysRight w q a) :
    Filled w fb len (q.act w a) := by
  cases a with
  | write area =>
    exact h.of_same rfl rfl (fun _ _ hmem => hmem) rfl rfl h.sized fun hrun =>
      ⟨h.counted hrun, h.run hrun⟩
  | setup params =>
    refine h.of_same rfl rfl (fun _ _ hmem => hmem) rfl rfl (fun _ => ?_) fun hrun => ?_
    · have hsize := buffer_pos h.least ha.2
      simpa [OutQueue.act, OutQueue.rt, withParams] using hsize
    · simp [OutQueue.act, OutQueue.state, withParams, inState, PcmState.isRunning] at hrun
  | prepare =>
    -- Prepared resets the pointers of a substream that does not run.
    have hstopped : PcmState.prepared.isRunning .playback = false := rfl
    have hidle := h.idle hstopped (fun _ => ha.1) [] (fun _ _ => List.not_mem_nil)
      (k := ptrReset .playback q.card) rfl rfl rfl
    rwa [List.append_nil] at hidle
  -- A start resets the pointers, and the total counts from zero under the new run.
  | start =>
    have hparams : q.state.HasParams := by
      rw [ha.1]
      exact ⟨nofun, nofun⟩
    refine h.of_same rfl rfl ?_ rfl rfl (fun _ => h.sized hparams) fun _ =>
      ⟨resetPtr_counted w q.rt .playback q.card.chip, rfl⟩
    intro load data hmem
    simpa [OutQueue.act] using hmem
  -- A drain leaves the substream running, as the handlers see it.
  | drain =>
    have hrun : q.state.isRunning .playback = true := by
      rw [ha]
      rfl
    exact h.of_same rfl rfl (fun _ _ hmem => hmem) rfl rfl
      (fun _ => h.sized (hasParams_of_isRunning hrun)) fun _ => ⟨h.counted hrun, h.run hrun⟩
  | stop st =>
    exact h.idle ha.2 (fun _ => hasParams_of_isRunning ha.1) [.stop] (by simp) rfl rfl rfl
  -- The first URBs of a session go out with the silence they were cleared to.
  | first ok =>
    exact (h.handed q.submitted ok).of_same rfl rfl (fun _ _ hmem => hmem) rfl rfl h.sized
      fun hrun => ⟨h.counted hrun, h.run hrun⟩
  -- The handler of a good URB refills it, unless nothing plays.
  | good i =>
    obtain ⟨err, herr⟩ := babyfaceUrbOk_eq q.card.chip
    refine (h.completed i herr).fill i fun hplaying => hok ?_
    rw [herr] at hplaying
    exact hplaying
  -- An error counts in `urb_err`, and the buffer stays as it is.
  | bad i =>
    have herrored : Filled w fb len ((q.completed i).withChip (urbErrored q.card.chip)) :=
      h.completed i rfl
    rw [OutQueue.act, OutQueue.completeBad_eq]
    split
    · exact herrored.of_same rfl rfl (fun _ _ hmem => hmem) rfl rfl h.sized fun hrun =>
        ⟨⟨(h.counted hrun).hw_ptr, (h.counted hrun).prev_period⟩, h.run hrun⟩
    · exact herrored
  -- A retired URB is not refilled.
  | retired i =>
    exact h.of_same rfl rfl (fun _ _ hmem => hmem) rfl rfl h.sized fun hrun =>
      ⟨h.counted hrun, h.run hrun⟩
  | resubmit ok =>
    cases hhandling : q.handling with
    | none =>
      simp only [OutQueue.act, hhandling, Option.elim_none]
      exact h
    | some i =>
      simp only [OutQueue.act, hhandling, Option.elim_some]
      exact h.resubmit ok i
  -- The rest of the driver keeps what the URBs rest on.
  | rest k => exact h.carded ha
  | kill =>
    exact h.of_same rfl rfl (fun _ _ hmem => hmem) rfl rfl h.sized fun hrun =>
      ⟨⟨(h.counted hrun).hw_ptr, (h.counted hrun).prev_period⟩, h.run hrun⟩

end Filled

/-! ## The turn of each submission -/

/-- Whose turn it is after the events `log`: the run that plays, the frames that a handler holds for
it, and the frames that were copied. -/
structure Turn (log : List OutEvent) (running : Bool) (run : Run) (held : Load) (total : ℕ) :
    Prop where
  now : nowPlaying log = if running then some run else none
  fresh : ∀ later : Run, run.number < later.number → played later log = 0
  held : held = .silence ∧ (running = true → played run log = total) ∨
    running = true ∧ ∃ count, held = .frames run (played run log) count ∧
      played run log + count = total

section Turn

variable {log : List OutEvent} {running : Bool} {run : Run} {held : Load} {total : ℕ}

/-- A START begins another run. -/
theorem Turn.start (h : Turn log false run held total) (rt : Runtime) :
    Turn (log ++ [.start ⟨run.number + 1, rt⟩]) true ⟨run.number + 1, rt⟩ held 0 where
  now := nowPlaying_append log _
  fresh later hlater := by
    rw [played_append, h.fresh later (Nat.lt_of_succ_lt hlater)]
    rfl
  held := by
    rcases h.held with ⟨hsilent, _⟩ | ⟨hrunning, _⟩
    · refine Or.inl ⟨hsilent, fun _ => ?_⟩
      rw [played_append, h.fresh _ (Nat.lt_succ_self _)]
      rfl
    · exact absurd hrunning Bool.false_ne_true

/-- A STOP ends it. -/
theorem Turn.stop (h : Turn log running run .silence total) :
    Turn (log ++ [.stop]) false run .silence total where
  now := nowPlaying_append log _
  fresh later hlater := by
    rw [played_append, h.fresh later hlater]
    rfl
  held := Or.inl ⟨rfl, nofun⟩

/-- A handler that holds silence fills its buffer with the next frames. -/
theorem Turn.fill (h : Turn log true run .silence total) (count : ℕ) :
    Turn log true run (.frames run total count) (total + count) where
  now := h.now
  fresh := h.fresh
  held := by
    rcases h.held with ⟨_, hplayed⟩ | ⟨_, count', hload, _⟩
    · exact Or.inr ⟨rfl, count, by rw [hplayed rfl], by rw [hplayed rfl]⟩
    · exact absurd hload (by simp)

/-- A URB of silence changes no run. -/
theorem Turn.silent (h : Turn log running run held total) (data : Mem) :
    Turn (log ++ [.submit .silence data]) running run held total where
  now := (nowPlaying_append log _).trans h.now
  fresh later hlater := by
    rw [played_append, h.fresh later hlater]
    rfl
  held := by
    have hplayed : played run (log ++ [.submit .silence data]) = played run log :=
      played_append run log _
    rw [hplayed]
    exact h.held

/-- What a handler holds may be submitted, and then it holds nothing. -/
theorem Turn.submit (h : Turn log running run held total) (data : Mem) :
    Turn (log ++ [.submit held data]) running run .silence total where
  now := (nowPlaying_append log _).trans h.now
  fresh later hlater := by
    rw [played_append, h.fresh later hlater, Nat.zero_add]
    rcases h.held with ⟨rfl, _⟩ | ⟨_, count, rfl, _⟩
    · rfl
    · exact if_neg fun heq => absurd hlater (by rw [heq]; exact lt_irrefl _)
  held := by
    rcases h.held with ⟨rfl, hplayed⟩ | ⟨_, count, rfl, htotal⟩
    · exact Or.inl ⟨rfl, fun hrunning => (played_append run log _).trans (hplayed hrunning)⟩
    · refine Or.inl ⟨rfl, fun _ => ?_⟩
      rw [played_append, ← htotal]
      exact congrArg (played run log + ·) (if_pos rfl)

/-- The turn of what a handler holds. -/
theorem Turn.due (h : Turn log running run held total) :
    held = .silence ∨ ∃ run count, nowPlaying log = some run ∧
      held = .frames run (played run log) count := by
  rcases h.held with ⟨hsilent, _⟩ | ⟨hrunning, count, hload, _⟩
  · exact Or.inl hsilent
  · refine Or.inr ⟨run, count, ?_, hload⟩
    rw [h.now, if_pos hrunning]

end Turn

/-- What the running handler would submit. -/
def OutQueue.held (q : OutQueue) : Load := q.handling.elim .silence q.load

/-- The submissions so far are in order, and the next one will be. -/
structure InTurn (q : OutQueue) : Prop where
  order : PlayedInOrder q.log
  /-- The URBs that `babyface_stream_start` has not submitted yet. -/
  unsent : ∀ i, q.submitted ≤ i → q.load i = .silence ∧ q.inflight i = false
  handling : ∀ i, q.handling = some i → i < q.submitted
  /-- A URB in flight carries what it was submitted with. -/
  sent : ∀ i, q.inflight i = true → ∃ data, OutEvent.submit (q.load i) data ∈ q.log
  turn : q.card.chip.streaming = true →
    Turn q.log (q.state.isRunning .playback) q.run q.held q.total

section InTurn

variable {w fb len : ℕ} {q : OutQueue}

/-- A state with the same submissions to come. -/
theorem InTurn.of_same (h : InTurn q) {q' : OutQueue} (hlog : q'.log = q.log)
    (hload : q'.load = q.load) (hsubmitted : q'.submitted = q.submitted)
    (hhandling : q'.handling = q.handling) (hrun : q'.run = q.run) (htotal : q'.total = q.total)
    (hrunning : q'.state.isRunning .playback = q.state.isRunning .playback)
    (hinflight : ∀ i, q'.inflight i = true → q.inflight i = true)
    (hlive : q'.card.chip.streaming = true → q.card.chip.streaming = true) : InTurn q' where
  order := by rw [hlog]; exact h.order
  -- A URB not submitted yet was never filled.
  unsent i hi := by
    obtain ⟨hsilent, hidle⟩ := h.unsent i (by omega)
    refine ⟨by rw [hload]; exact hsilent, ?_⟩
    rw [← Bool.not_eq_true] at hidle ⊢
    exact fun htrue => hidle (hinflight i htrue)
  handling i hi := by
    rw [hsubmitted]
    exact h.handling i (hhandling ▸ hi)
  sent i hi := by
    rw [hload, hlog]
    exact h.sent i (hinflight i hi)
  -- While the session lives, whose turn it is is read off the same log, run and total.
  turn hq' := by
    rw [hlog, hrunning, hrun, htotal, OutQueue.held, hhandling, hload]
    exact h.turn (hlive hq')

/-- A URB that is in flight was submitted. -/
theorem InTurn.lt_submitted (h : InTurn q) {i : ℕ} (hi : q.inflight i = true) : i < q.submitted := by
  by_contra hge
  have hidle := (h.unsent i (by omega)).2
  exact absurd (hi.symm.trans hidle) (by decide)

/-- A URB that completes, and what its handler then holds. -/
theorem InTurn.taken (h : InTurn q) {i : ℕ} (hi : q.inflight i = true) {q' : OutQueue}
    (hlog : q'.log = q.log) (hload : ∀ j, j ≠ i → q'.load j = q.load j)
    (hsubmitted : q'.submitted = q.submitted) (hhandling : q'.handling = some i)
    (hinflight : ∀ j, q'.inflight j = true → q.inflight j = true ∧ j ≠ i)
    (hstate : q'.state = q.state) (hrun : q'.run = q.run) (hlive : q'.card.chip.streaming = q.card.chip.streaming) {held : Load}
    (hheld : q'.load i = held)
    (hturn : q.card.chip.streaming = true →
      Turn q.log (q.state.isRunning .playback) q.run held q'.total) : InTurn q' where
  order := by rw [hlog]; exact h.order
  unsent j hj := by
    -- Only a URB that was submitted is in flight, so this one is none of those to come.
    obtain ⟨hsilent, hidle⟩ := h.unsent j (by omega)
    have hsent := h.lt_submitted hi
    refine ⟨by rw [hload j (by omega)]; exact hsilent, ?_⟩
    rw [← Bool.not_eq_true] at hidle ⊢
    exact fun htrue => hidle (hinflight j htrue).1
  handling j hj := by
    obtain rfl : i = j := Option.some_inj.mp (hhandling.symm.trans hj)
    rw [hsubmitted]
    exact h.lt_submitted hi
  sent j hj := by
    obtain ⟨hflight, hne⟩ := hinflight j hj
    rw [hload j hne, hlog]
    exact h.sent j hflight
  turn hq' := by
    -- The handler now holds what it put into the URB it took.
    have hload : q'.held = held := by rw [OutQueue.held, hhandling]; exact hheld
    rw [hlog, hload, hstate, hrun]
    exact hturn (hlive ▸ hq')

/-- A URB that has completed is in flight no more, and no other URB is. -/
theorem completed_inflight {i j : ℕ} (h : (q.completed i).inflight j = true) :
    q.inflight j = true ∧ j ≠ i := by
  by_cases hj : j = i
  · simp [OutQueue.completed, hj] at h
  · exact ⟨by simpa [OutQueue.completed, hj] using h, hj⟩

/-- The handler of a good URB holds the next frames, or silence. -/
theorem InTurn.completeGood (h : InTurn q) (hq : Filled w fb len q) {i : ℕ}
    (hi : q.inflight i = true) (hfree : q.handling = none)
    (hslot : q.playing = true → q.total % 2 ^ w % q.rt.buffer_size = q.total % q.rt.buffer_size) :
    InTurn (q.completeGood w i) := by
  obtain ⟨err, herr⟩ := babyfaceUrbOk_eq q.card.chip
  have hfilled : Filled w fb len ((q.completed i).withChip (babyfaceUrbOk q.card.chip)) :=
    hq.completed i herr
  -- With no handler under way nothing was held, so the turn is the next frames' own.
  have hturn : q.card.chip.streaming = true →
      Turn q.log (q.state.isRunning .playback) q.run .silence q.total := by
    intro hlive
    have hheld : q.held = .silence := by rw [OutQueue.held, hfree]; rfl
    exact hheld ▸ h.turn hlive
  have hlive : (babyfaceUrbOk q.card.chip).streaming = q.card.chip.streaming := by rw [herr]
  -- Taking the URB and clearing its errors does not touch the substream.
  have hplays : ((q.completed i).withChip (babyfaceUrbOk q.card.chip)).playing = q.playing := by
    rw [herr]
    rfl
  unfold OutQueue.completeGood
  -- A handler that finds nothing playing holds silence, one that does holds the next frames.
  cases hplaying : q.playing with
  | false =>
    rw [OutQueue.fill_silent w i (hplays.trans hplaying)]
    exact h.taken hi rfl (fun j hj => Function.update_of_ne hj _ _) rfl rfl
      (fun j => completed_inflight) rfl rfl hlive (Function.update_self ..) hturn
  | true =>
    obtain ⟨data, _, hfill⟩ := OutQueue.fill_playing hfilled i (hplays.trans hplaying)
      (hslot hplaying)
    have hrunning : q.state.isRunning .playback = true := (Bool.and_eq_true_iff.mp hplaying).2
    rw [hfill]
    refine h.taken hi rfl (fun j hj => Function.update_of_ne hj _ _) rfl rfl
      (fun j => completed_inflight) rfl rfl ?_ (Function.update_self ..) fun hq' => ?_
    · obtain ⟨ptr, period, hadvance⟩ := advance_eq w q.rt .playback
        (((q.completed i).withChip (babyfaceUrbOk q.card.chip)).count i) (babyfaceUrbOk q.card.chip)
      exact (congrArg Stream.streaming (congrArg Chip.toStream hadvance)).trans hlive
    · have hnow := hturn hq'
      rw [hrunning] at hnow ⊢
      exact hnow.fill _

/-- A URB in flight was submitted with what it has. -/
theorem InTurn.sent_append (h : InTurn q) {i : ℕ} (hi : q.inflight i = true) {e : OutEvent} :
    ∃ data, OutEvent.submit (q.load i) data ∈ q.log ++ [e] := by
  obtain ⟨data, hmem⟩ := h.sent i hi
  exact ⟨data, List.mem_append_left _ hmem⟩

/-- A URB that is handed over carries what it was submitted with. -/
theorem InTurn.handed_sent (h : InTurn q) {i : ℕ} {ok : Bool} {j : ℕ}
    (hj : (q.handed i ok).inflight j = true) :
    ∃ data, OutEvent.submit (q.load j) data ∈ (q.handed i ok).log := by
  by_cases hji : j = i
  · exact ⟨(q.urbs_out i).transfer_buffer, by simp [OutQueue.handed, hji]⟩
  · obtain ⟨data, hmem⟩ := h.sent j (by simpa [OutQueue.handed, hji] using hj)
    exact ⟨data, List.mem_append_left _ hmem⟩

/-- A submission whose turn it is. -/
theorem InTurn.resubmit (h : InTurn q) {i : ℕ} (hi : q.handling = some i) (ok : Bool) :
    InTurn (q.resubmit ok i) := by
  have hheld : q.held = q.load i := by rw [OutQueue.held, hi]; rfl
  unfold OutQueue.resubmit
  dsimp only
  by_cases hlive : q.card.chip.streaming = true
  · have hturn := h.turn hlive
    rw [hheld] at hturn
    have hhanded : InTurn (OutQueue.handed { q with handling := none } i ok) := by
      -- The turn that was held is the next in the log, and nothing is held after it.
      refine ⟨?_, fun j hj => ?_, nofun, fun j hj => ?_, fun _ => hturn.submit _⟩
      · refine h.order.append fun load data hsubmit => ?_
        obtain ⟨rfl, rfl⟩ : q.load i = load ∧ (q.urbs_out i).transfer_buffer = data := by
          simpa using hsubmit
        exact hturn.due
      -- The URB that was handled has been submitted before, so it is none of those to come.
      · have hne : j ≠ i := fun heq => absurd (h.handling i hi) (by rw [← heq]; exact not_lt.mpr hj)
        obtain ⟨hload, hidle⟩ := h.unsent j hj
        exact ⟨hload, by simpa [OutQueue.handed, hne] using hidle⟩
      · exact h.handed_sent hj
    rw [if_pos hlive]
    cases ok with
    | true => exact hhanded
    | false => exact hhanded.of_same rfl rfl rfl rfl rfl rfl rfl (fun _ hi => hi) fun hq => hq
  -- A session that was killed has no turn to keep.
  · rw [if_neg hlive]
    exact ⟨h.order, h.unsent, nofun, h.sent, fun hq => absurd hq hlive⟩

/-- `babyface_stream_start` submits a buffer that it has cleared. -/
theorem InTurn.first (h : InTurn q) (ok : Bool) (hlive : q.card.chip.streaming = true) :
    InTurn (q.act w (.first ok)) := by
  have hsilent : q.load q.submitted = .silence := (h.unsent q.submitted le_rfl).1
  have hlog : (q.act w (.first ok)).log =
      q.log ++ [.submit .silence (q.urbs_out q.submitted).transfer_buffer] := by
    rw [← hsilent]
    rfl
  refine ⟨?_, fun i hi => ?_, fun i hi => Nat.lt_succ_of_lt (h.handling i hi),
    fun i hi => h.handed_sent hi, fun _ => ?_⟩
  · rw [hlog]
    refine h.order.append fun load data hsubmit => Or.inl ?_
    exact (OutEvent.submit.inj hsubmit).1.symm
  · have hlt : q.submitted < i := hi
    obtain ⟨hload, hidle⟩ := h.unsent i hlt.le
    refine ⟨hload, ?_⟩
    exact (Function.update_of_ne hlt.ne' _ _).trans hidle
  · rw [hlog]
    exact (h.turn hlive).silent _

/-- The handler of a URB with a transient error holds what the URB carried. -/
theorem InTurn.completeBad (h : InTurn q) {i : ℕ} (hi : q.inflight i = true)
    (hfree : q.handling = none)
    (hok : q.load i = .silence ∨ BF_URB_ERR_STOP ≤ q.card.chip.urb_err + 1) :
    InTurn (q.completeBad i) := by
  have hturn : q.card.chip.streaming = true →
      Turn q.log (q.state.isRunning .playback) q.run .silence q.total := by
    intro hlive
    have hheld : q.held = .silence := by rw [OutQueue.held, hfree]; rfl
    exact hheld ▸ h.turn hlive
  rw [OutQueue.completeBad_eq]
  split
  · exact h.of_same rfl rfl rfl hfree.symm rfl rfl rfl (fun j hj => (completed_inflight hj).1)
      fun hq => hq
  · rename_i hgo
    exact h.taken hi rfl (fun _ _ => rfl) rfl rfl (fun j => completed_inflight) rfl rfl rfl
      (hok.resolve_right hgo) hturn

/-- Every action keeps the submissions in turn. -/
theorem InTurn.act (h : InTurn q) (hq : Filled w fb len q) (a : OutAct) (ha : a.enabled q)
    (hok : PlaysRight w q a) : InTurn (q.act w a) := by
  cases a with
  | write area => exact h.of_same rfl rfl rfl rfl rfl rfl rfl (fun _ hi => hi) fun hlive => hlive
  | setup params =>
    refine h.of_same rfl rfl rfl rfl rfl rfl ?_ (fun _ hi => hi) fun hlive => hlive
    rw [ha.1]
    simp [OutQueue.act, OutQueue.state, withParams, inState, PcmState.isRunning]
  | prepare =>
    refine h.of_same rfl rfl rfl rfl rfl rfl ?_ (fun _ hi => hi) fun hlive => hlive
    rw [ha.2.1]
    simp [OutQueue.act, OutQueue.state, inState, PcmState.isRunning]
  -- A start opens a run: the frames count from zero after what the log holds.
  | start =>
    have hidle : q.state.isRunning .playback = false := by rw [ha.1]; rfl
    refine ⟨h.order.append nofun, h.unsent, h.handling, fun i hi => h.sent_append hi, fun hlive => ?_⟩
    have hturn := h.turn hlive
    rw [hidle] at hturn
    have hnext := hturn.start q.rt
    simpa [OutQueue.act, OutQueue.state, inState, PcmState.isRunning, OutQueue.held] using hnext
  | drain =>
    refine h.of_same rfl rfl rfl rfl rfl rfl ?_ (fun _ hi => hi) fun hlive => hlive
    have hrunning : q.state = .running := ha
    simp [OutQueue.act, OutQueue.state, inState, PcmState.isRunning, hrunning]
  -- A stop ends the run, and what the handler holds must then be silence.
  | stop st =>
    refine ⟨h.order.append nofun, h.unsent, h.handling, fun i hi => h.sent_append hi, fun hlive => ?_⟩
    have hheld : q.held = .silence := by
      unfold OutQueue.held
      cases hhandling : q.handling with
      | none => rfl
      | some i => exact hok i hhandling
    have hidle : (q.act w (.stop st)).state.isRunning .playback = false := by
      simp [OutQueue.act, OutQueue.state, inState, ha.2]
    have hnext := (hheld ▸ h.turn hlive).stop
    rw [hidle]
    exact hheld ▸ hnext
  | first ok => exact h.first ok ha.2
  | good i => exact h.completeGood hq ha.1 ha.2 hok
  | bad i => exact h.completeBad ha.1 ha.2 hok
  | retired i =>
    -- A URB that is retired was in flight, and no other one changes.
    refine h.of_same rfl rfl rfl rfl rfl rfl rfl (fun j hj => ?_) fun hlive => hlive
    exact (completed_inflight hj).1
  | resubmit ok =>
    obtain ⟨i, hi⟩ := Option.isSome_iff_exists.mp ha
    simp only [OutQueue.act, hi, Option.elim_some]
    exact h.resubmit hi ok
  | rest k =>
    refine h.of_same rfl rfl rfl rfl rfl rfl ?_ (fun _ hi => hi) fun hlive => ?_
    · rcases ha.state with hstate | ⟨hidle, hidle', _⟩
      · exact congrArg (PcmState.isRunning .playback) hstate
      · exact hidle'.trans hidle.symm
    · rw [← ha.streaming]
      exact hlive
  | kill =>
    -- A kill ends the session, which is all that the turn is about.
    refine h.of_same rfl rfl rfl rfl rfl rfl rfl (fun _ hi => hi) fun hlive => ?_
    exact absurd hlive Bool.false_ne_true

end InTurn

/-! ## Every run -/

/-- A session that has not begun has filled nothing. -/
theorem OutQueue.Fresh.filled {q : OutQueue} (h : q.Fresh) (w : ℕ) :
    Filled w q.card.chip.frame_bytes (q.card.chip.frame_bytes * q.card.chip.urb_frames) q where
  frame_bytes := rfl
  words := by
    -- Each frame of the rates is whole words.
    have hrates : ∀ r ∈ bfRates, r.frame_bytes / 4 * 4 = r.frame_bytes := by decide
    obtain ⟨r, hr, _, _, hfb, _⟩ := h.geometry.rate
    rw [hfb, hrates r hr]
  least := by
    have hmin := h.geometry.clamped.urb_frames_min.1
    omega
  sized hparams := by
    have hmin := h.geometry.clamped.urb_frames_min.1
    exact buffer_pos (by omega) (h.admitted hparams)
  -- Nothing runs before the first start.
  counted hrun := absurd (hrun.symm.trans h.stopped) (by decide)
  run hrun := absurd (hrun.symm.trans h.stopped) (by decide)
  length := h.length
  buffers i := by
    rw [h.load]
    intro a ha
    exact h.cleared i a (by rwa [h.length i])
  sent load data hmem := by
    rw [h.log] at hmem
    cases hmem

/-- And it is nobody's turn. -/
theorem OutQueue.Fresh.inTurn {q : OutQueue} (h : q.Fresh) : InTurn q where
  order := by
    rw [h.log]
    intro pre load data post hsplit
    simp at hsplit
  unsent i _ := by rw [h.load, h.inflight]; exact ⟨rfl, rfl⟩
  handling i hi := by
    rw [h.handling] at hi
    cases hi
  sent i hi := by
    rw [h.inflight] at hi
    cases hi
  turn _ := by
    have hheld : q.held = .silence := by rw [OutQueue.held, h.handling]; rfl
    rw [h.stopped, h.log, hheld]
    exact ⟨rfl, fun _ _ => rfl, Or.inl ⟨rfl, nofun⟩⟩

/-- What holds after a run whose steps play right. -/
theorem outSteps_inv {w : ℕ} {q₀ q : OutQueue} (h₀ : q₀.Fresh)
    (h : OutSteps w (PlaysRight w) q₀ q) :
    Filled w q₀.card.chip.frame_bytes (q₀.card.chip.frame_bytes * q₀.card.chip.urb_frames) q ∧
      InTurn q := by
  induction h with
  | refl => exact ⟨h₀.filled w, h₀.inTurn⟩
  | tail _ hstep ih =>
    obtain ⟨a, ha, hok, rfl⟩ := hstep
    exact ⟨ih.1.act a ha hok, ih.2.act ih.1 a ha hok⟩

/-- What a handler of a live session submits last. -/
theorem OutQueue.resubmit_log (q : OutQueue) (ok : Bool) (i : ℕ)
    (hlive : q.card.chip.streaming = true) :
    (q.resubmit ok i).log = q.log ++ [.submit (q.load i) (q.urbs_out i).transfer_buffer] := by
  unfold OutQueue.resubmit
  dsimp only
  rw [if_pos hlive]
  cases ok <;> rfl

/-- A transient error of a URB that carries audio sends that audio again, unless it is the one that
stops the session. -/
theorem error_breaks_order {w : ℕ} {q₀ q : OutQueue} (h₀ : q₀.Fresh)
    (h : OutSteps w (PlaysRight w) q₀ q) {i : ℕ} (ha : (OutAct.bad i).enabled q)
    (hlive : q.card.chip.streaming = true) (hbad : ¬ PlaysRight w q (.bad i)) (ok : Bool) :
    ¬ PlayedInOrder ((q.act w (.bad i)).act w (.resubmit ok)).log := by
  obtain ⟨hfilled, hturn⟩ := outSteps_inv h₀ h
  obtain ⟨haudio, hgo⟩ := not_or.mp hbad
  have hlog : ((q.act w (.bad i)).act w (.resubmit ok)).log =
      q.log ++ [.submit (q.load i) (q.urbs_out i).transfer_buffer] := by
    have hbad : q.act w (.bad i) = (q.completed i).withChip (urbErrored q.card.chip) := by
      rw [OutQueue.act, OutQueue.completeBad_eq, if_neg hgo]
    rw [hbad]
    exact OutQueue.resubmit_log _ ok i hlive
  intro horder
  obtain ⟨data, hmem⟩ := hturn.sent i ha.1
  obtain ⟨pre, post, hsplit⟩ := List.append_of_mem hmem
  -- The frames went out once when the URB was submitted, and now after themselves.
  obtain ⟨run, count, -, hfirst⟩ := (hturn.order pre _ data post hsplit).resolve_left haudio
  obtain ⟨run', count', -, hagain⟩ := (horder q.log _ _ [] hlog).resolve_left haudio
  obtain ⟨rfl, hplayed, rfl⟩ := Load.frames.inj (hfirst.symm.trans hagain)
  have hpos : 0 < count := by
    have hcarries := hfilled.buffers i
    rw [hfirst] at hcarries
    obtain ⟨r, hr, _, _, hfb, _⟩ := h₀.geometry.rate
    have hrates : ∀ r ∈ bfRates, 0 < r.frame_bytes := by decide
    have hmin := h₀.geometry.clamped.urb_frames_min.1
    have hleast := h₀.geometry.urb_frames.1
    rw [hcarries.1, Nat.mul_div_cancel_left _ (by rw [hfb]; exact hrates r hr)]
    omega
  have hgrown : played run q.log = played run pre + count + played run post := by
    rw [hsplit, hfirst]
    simp [played, OutEvent.frames, Nat.add_assoc]
  omega

/-- A STOP between the fill of a URB and its submission leaves the audio to be sent after it. -/
theorem stop_breaks_order {w : ℕ} {q : OutQueue} (st : PcmState)
    (hlive : q.card.chip.streaming = true) (hstop : ¬ PlaysRight w q (.stop st)) (ok : Bool) :
    ¬ PlayedInOrder ((q.act w (.stop st)).act w (.resubmit ok)).log := by
  obtain ⟨i, hi, haudio⟩ : ∃ i, q.handling = some i ∧ q.load i ≠ .silence := by
    simpa [PlaysRight] using hstop
  have hlog : ((q.act w (.stop st)).act w (.resubmit ok)).log =
      q.log ++ [.stop] ++ [.submit (q.load i) (q.urbs_out i).transfer_buffer] := by
    have hresubmit : (q.act w (.stop st)).act w (.resubmit ok) =
        (q.act w (.stop st)).resubmit ok i := by
      simp only [OutQueue.act, hi, Option.elim_some]
    rw [hresubmit]
    exact OutQueue.resubmit_log _ ok i hlive
  intro horder
  obtain ⟨run, count, hnow, -⟩ := (horder (q.log ++ [.stop]) _ _ [] hlog).resolve_left haudio
  rw [nowPlaying_append] at hnow
  cases hnow

/-- In every run of a session whose steps play right, every URB handed to `usb_submit_urb` carries
either silence or the next frames of the run that plays: each frame once, in the order of the ring,
without a gap, and none after a STOP. The first transient error that hits audio breaks the order with
the resubmission that follows, and so does the first STOP between a fill and its submission. -/
theorem played_in_order {w : ℕ} {q₀ : OutQueue} (h₀ : q₀.Fresh) :
    (∀ q, OutSteps w (PlaysRight w) q₀ q →
      PlayedInOrder q.log ∧ ∀ load data, OutEvent.submit load data ∈ q.log →
        Carries q₀.card.chip.frame_bytes (q₀.card.chip.frame_bytes * q₀.card.chip.urb_frames) load
          data) ∧
    ∀ q, OutSteps w (PlaysRight w) q₀ q → q.card.chip.streaming = true → ∀ ok,
      (∀ i, (OutAct.bad i).enabled q → ¬ PlaysRight w q (.bad i) →
        ¬ PlayedInOrder ((q.act w (.bad i)).act w (.resubmit ok)).log) ∧
      ∀ st, ¬ PlaysRight w q (.stop st) →
        ¬ PlayedInOrder ((q.act w (.stop st)).act w (.resubmit ok)).log := by
  constructor
  · intro q h
    obtain ⟨hfilled, hturn⟩ := outSteps_inv h₀ h
    exact ⟨hturn.order, hfilled.sent⟩
  · intro q h hlive ok
    exact ⟨fun i ha hbad => error_breaks_order h₀ h ha hlive hbad ok,
      fun st hstop => stop_breaks_order st hlive hstop ok⟩

/-- A session of the defaults with one playback substream, prepared. -/
def preparedQueue : OutQueue where
  card :=
    { chip :=
        { probeChip {} with
          streaming := true
          stream_users := 1
          stream_setup := fun d => d = .playback
          subs := fun d => d = .playback }
      state := fun d => if d = .playback then .prepared else .open
      runtime := fun _ => ⟨48000, 2, 1024, 4096⟩ }
  area := fun _ => 7
  urbs_out := fun _ => ⟨56 * 256, fun _ => 0⟩

/-- A queue whose session was just prepared. -/
theorem preparedQueue_fresh : preparedQueue.Fresh where
  streaming := rfl
  geometry :=
    { clamped := ⟨by decide, by decide, by decide⟩
      urb_frames := by decide
      urbs_active := by decide
      rate := by decide
      users := by decide
      live := fun _ => by decide }
  stopped := rfl
  admitted _ :=
    ⟨⟨⟨48000, BF_ALT_1, 56, 8⟩, by decide, rfl⟩, by decide, by decide, by decide, by decide, by decide⟩
  length _ := rfl
  cleared _ _ _ := rfl
  load := rfl
  submitted := rfl
  inflight := rfl
  handling := rfl
  log := rfl

/-- The first URB of a playback substream. -/
def firstActs : List OutAct := [.first true, .start, .good 0, .resubmit true]

/-- The queue after some actions. -/
def OutQueue.acts (w : ℕ) (q : OutQueue) (as : List OutAct) : OutQueue := as.foldl (·.act w) q

/-- Its first actions are steps of a run. -/
theorem preparedQueue_steps {ok : OutQueue → OutAct → Prop}
    (hok : ∀ q a, PlaysRight 64 q a → (∀ i, a ≠ .bad i) → ok q a) :
    OutSteps 64 ok preparedQueue (preparedQueue.acts 64 firstActs) := by
  have h₁ : OutStep 64 ok preparedQueue (preparedQueue.acts 64 [.first true]) :=
    ⟨.first true, ⟨by decide, rfl⟩, hok _ _ trivial nofun, rfl⟩
  have h₂ : OutStep 64 ok (preparedQueue.acts 64 [.first true])
      (preparedQueue.acts 64 [.first true, .start]) :=
    ⟨.start, ⟨rfl, rfl, by decide⟩, hok _ _ trivial nofun, rfl⟩
  have h₃ : OutStep 64 ok (preparedQueue.acts 64 [.first true, .start])
      (preparedQueue.acts 64 [.first true, .start, .good 0]) :=
    ⟨.good 0, ⟨rfl, rfl⟩, hok _ _ (fun _ => rfl) nofun, rfl⟩
  have h₄ : OutStep 64 ok (preparedQueue.acts 64 [.first true, .start, .good 0])
      (preparedQueue.acts 64 firstActs) :=
    ⟨.resubmit true, rfl, hok _ _ trivial nofun, rfl⟩
  exact (((Relation.ReflTransGen.single h₁).tail h₂).tail h₃).tail h₄

/-- The first frames of a playback substream follow the silence of its session. -/
theorem played_in_order_first :
    PlayedInOrder (preparedQueue.acts 64 firstActs).log ∧
      (preparedQueue.acts 64 firstActs).load 0 = .frames ⟨1, ⟨48000, 2, 1024, 4096⟩⟩ 0 256 :=
  ⟨((played_in_order preparedQueue_fresh).1 _ (preparedQueue_steps fun _ _ h _ => h)).1, rfl⟩

/-- A single transient error, below the threshold, sends the first frames twice. -/
theorem error_repeats_audio :
    ∃ q₀ q, OutQueue.Fresh q₀ ∧
      OutSteps 64 (fun q a => ∀ i, a = .bad i → q.card.chip.urb_err + 1 < BF_URB_ERR_STOP) q₀ q ∧
      ¬ PlayedInOrder q.log := by
  have hgo : ¬ PlaysRight 64 (preparedQueue.acts 64 firstActs) (.bad 0) := by
    rintro (hsilent | hstop)
    · cases hsilent
    · exact absurd hstop (by decide)
  refine ⟨preparedQueue, _, preparedQueue_fresh, ?_,
    error_breaks_order preparedQueue_fresh (preparedQueue_steps fun _ _ h _ => h) ⟨rfl, rfl⟩ rfl hgo
      true⟩
  refine ((preparedQueue_steps fun q a _ hgood i hi => absurd hi (hgood i)).tail
    ⟨.bad 0, ⟨rfl, rfl⟩, fun i _ => by decide, rfl⟩).tail ⟨.resubmit true, rfl, nofun, rfl⟩

end BabyfacePro
