import BabyfacePro.Lib.Section
import BabyfacePro.Stream.Session

/-!
# The callbacks, between the triggers

A trigger takes the stream lock of its substream and never `chip->mutex`, so it steps between the acts
of a section under the mutex. Here the sections of `BabyfacePro.Stream.Pcm` are taken apart for that:
each access to `chip->streaming`, each section under a stream lock, and each transfer after the flag is
raised is an act of its own. Between the section of a callback and the end of the core's call, which sets
the state of the substream, any other section may run. Alone, a section does what its callback in
`BabyfacePro.Stream.Pcm` does.
-/

namespace BabyfacePro

/-- Where a call of the core on a substream is; the core makes one at a time. A trigger is none of
these. -/
inductive Call where
  | idle
  /-- hw_params, once the state of the substream is checked. -/
  | hwParams (params : Runtime)
  /-- The driver has accepted the parameters. -/
  | accepted (params : Runtime)
  | refused
  /-- hw_free, once the state of the substream is checked. -/
  | hwFree
  /-- The driver has released the substream. -/
  | freed
  | prepare
  /-- The driver has prepared the substream. -/
  | prepared
  deriving DecidableEq, Repr

/-- A substream that is being released. -/
def Call.frees : Call → Bool
  | hwFree | freed => true
  | _ => false

/-- A call in the driver: it waits for the mutex, or its section runs. -/
def Call.busy : Call → Bool
  | hwParams _ | hwFree | prepare => true
  | _ => false

/-- What the threads share. -/
structure Shared where
  world : PcmWorld
  /-- A START that holds the stream lock and has read `->streaming` as set. -/
  starting : Dir → Bool := fun _ => false
  call : Dir → Call := fun _ => .idle

namespace Shared

/-- The card. -/
abbrev card (s : Shared) : Card := s.world.chip

/-- A change of the card. -/
def onCard (f : Card → Card) (s : Shared) : Shared :=
  { s with world := { s.world with chip := f s.world.chip } }

/-- A call of the core at another place. -/
def called (d : Dir) (c : Call) (s : Shared) : Shared :=
  { s with call := Function.update s.call d c }

/-- A START that holds the stream lock of `d`, or that releases it. -/
def startedBy (d : Dir) (b : Bool) (s : Shared) : Shared :=
  { s with starting := Function.update s.starting d b }

/-- A change of the card changes it. -/
@[simp] theorem onCard_card (f : Card → Card) (s : Shared) : (s.onCard f).card = f s.card := rfl

/-- It leaves the triggers. -/
@[simp] theorem onCard_starting (f : Card → Card) (s : Shared) :
    (s.onCard f).starting = s.starting := rfl

/-- And the calls. -/
@[simp] theorem onCard_call (f : Card → Card) (s : Shared) : (s.onCard f).call = s.call := rfl

/-- A call at another place leaves the card. -/
@[simp] theorem called_card (d : Dir) (c : Call) (s : Shared) : (s.called d c).card = s.card := rfl

/-- It leaves the triggers. -/
@[simp] theorem called_starting (d : Dir) (c : Call) (s : Shared) :
    (s.called d c).starting = s.starting := rfl

/-- It is at its place. -/
@[simp] theorem called_call (d : Dir) (c : Call) (s : Shared) :
    (s.called d c).call = Function.update s.call d c := rfl

/-- A trigger that holds the stream lock leaves the card. -/
@[simp] theorem startedBy_card (d : Dir) (b : Bool) (s : Shared) :
    (s.startedBy d b).card = s.card := rfl

/-- It is under way. -/
@[simp] theorem startedBy_starting (d : Dir) (b : Bool) (s : Shared) :
    (s.startedBy d b).starting = Function.update s.starting d b := rfl

/-- It leaves the calls. -/
@[simp] theorem startedBy_call (d : Dir) (b : Bool) (s : Shared) :
    (s.startedBy d b).call = s.call := rfl

/-- A substream that runs, or whose START has read the flag. -/
def Started (s : Shared) (d : Dir) : Prop := s.card.state d = .running ∨ s.starting d = true

end Shared

/-- The kills that `babyface_pcm_stop_both` does not follow, while the card is there. -/
inductive LoneKill where
  /-- The error path of `babyface_stream_start`. -/
  | startFailed
  /-- The last hw_free. -/
  | lastFreed
  deriving DecidableEq, Repr

namespace Interleaved

open Section (Prog)
open Bus.M (get modify)

/-- A section under `chip->mutex`. -/
abbrev Sec (α : Type) : Type := Prog Shared LoneKill Errno α

/-- A part of a section that no trigger can tell from one act. -/
def atomic {α : Type} (m : Pcm α) : Sec α :=
  .act none (fun _ => True) (fun s => { s with world := (m s.world).2 }) fun s =>
    match (m s.world).1 with
    | .ok a => .ret a
    | .error e => .throw e

/-- The card, as a section finds it. -/
def getCard : Sec Card := atomic get

/-! ## The session -/

/-- `babyface_stream_kill`, where `i` says whose it is. -/
def babyfaceStreamKill (i : Option LoneKill) : Sec Unit :=
  .change i (fun _ => True) (Shared.onCard killed)

/-- A substream that ran, in the state `st`. -/
def stoppedOne (d : Dir) (st : PcmState) (k : Card) : Card :=
  { k with
    state := Function.update k.state d
      (if k.chip.subs d ∧ (k.state d).isRunning d then st else k.state d) }

/-- The turn of `d` in `babyface_pcm_stop_both`, once it has the stream lock. -/
def stopOne (d : Dir) (st : PcmState) : Sec Unit :=
  .change none (fun s => s.starting d = false) (Shared.onCard (stoppedOne d st))

/-- `babyface_pcm_stop_both`. -/
def babyfacePcmStopBoth (st : PcmState) : Sec Unit := do
  stopOne .playback st
  stopOne .capture st

/-- A session that runs is stopped, and the substreams that ran get an xrun. -/
def stopSession : Sec Unit := do
  let k ← getCard
  .when k.chip.streaming (do
    babyfaceStreamKill none
    babyfacePcmStopBoth .xrun)

/-- The counts of a session that is about to run. -/
def counted (k : Card) : Card :=
  { k with chip := { k.chip with urb_err := 0, out_inflight := k.chip.urbs_active } }

/-- The flag, raised before the first URB goes out. -/
def raised (k : Card) : Card := { k with chip := { k.chip with streaming := true } }

/-- The end of `babyface_stream_start`: the URBs of a session, and its arm. -/
def submitAndArm (urbs_active : ℕ) : Sec Unit := do
  .each (List.range urbs_active) fun _ => do
    atomic usbSubmitUrb
    atomic usbSubmitUrb
  atomic (onChip bfSessionArm)

/-- `babyface_stream_start` up to its error path. -/
def startSession : Sec Unit := do
  atomic (onChip bfSessionTrigger)
  let k ← getCard
  atomic (modify counted)
  .change none (fun _ => True) (Shared.onCard raised)
  submitAndArm k.chip.urbs_active

/-- `babyface_stream_start`. -/
def babyfaceStreamStart : Sec Unit :=
  startSession.onError (babyfaceStreamKill (some .startFailed))

/-- The section of `babyface_disconnect`. -/
def killSection : Sec Unit := do
  let k ← getCard
  .when k.chip.streaming (babyfaceStreamKill none)

/-- `babyface_stream_work`. -/
def babyfaceStreamWork : Sec Unit := do
  let k ← getCard
  .when (!k.chip.shutdown && decide (BF_URB_ERR_STOP ≤ k.chip.urb_err)) (do
    killSection
    babyfacePcmStopBoth .xrun
    atomic (modify errCleared))

/-! ## The callbacks -/

/-- The rate's part of `babyface_pcm_hw_params`: whether the rate is a new one. -/
def hwParamsRate (d : Dir) (r : BfRate) : Sec Bool := do
  let k ← getCard
  if r.rate = k.chip.rate then pure false
  else if bfOtherHoldsClock k.chip d then .throw .ebusy
  else do
    stopSession
    atomic (onChip (bfRetune r))
    pure true

/-- The URBs' part of `babyface_pcm_hw_params`, for URBs of `urb` frames. -/
def hwParamsUrbs (urb_split : ℤ) (d : Dir) (r : BfRate) (urb period : ℕ) (new_rate : Bool) :
    Sec Unit := do
  let k ← getCard
  if bfOtherHoldsClock k.chip d then
    if period < bfSessionPeriod k.chip then .throw .ebusy else pure ()
  else if new_rate ∨ ¬ k.chip.stream_setup d.other ∨ k.chip.session_dir = d ∨
      period < bfSessionPeriod k.chip then do
    let n := bfUrbCount urb_split k.chip r period urb
    if urb ≠ k.chip.urb_frames ∨ n ≠ k.chip.urbs_active then do
      stopSession
      atomic (modify (chosenUrbs urb n))
    else pure ()
    atomic (modify (ledBy d))
  else pure ()

/-- `babyface_pcm_hw_params`. -/
def babyfacePcmHwParams (urb_split : ℤ) (d : Dir) (params : Runtime) : Sec Unit :=
  match bfRateLookup params.rate with
  | none => .throw .einval
  | some r => do
    let k ← getCard
    let urb := bfUrbFrames urb_split k.chip r params.period_size
    if urb = 0 then .throw .einval
    else if k.chip.shutdown then .throw .enodev
    else do
      let new_rate ← hwParamsRate d r
      hwParamsUrbs urb_split d r urb params.period_size new_rate
      atomic (modify (setUp d))

/-- A direction that is no user of the session any more. -/
def released (d : Dir) (k : Card) : Card :=
  { k with
    chip :=
      { k.chip with
        stream_setup := Function.update k.chip.stream_setup d false
        stream_users := k.chip.stream_users - 1 } }

/-- `babyface_pcm_hw_free`. -/
def babyfacePcmHwFree (d : Dir) : Sec Unit := do
  let k ← getCard
  .when (k.chip.stream_setup d) (do
    atomic (modify (released d))
    let k ← getCard
    .when (decide (k.chip.stream_users = 0) && k.chip.streaming)
      (babyfaceStreamKill (some .lastFreed)))

/-- The section of `babyface_pcm_prepare` under the mutex. -/
def babyfacePcmPrepare (d : Dir) : Sec Unit := do
  let k ← getCard
  if k.chip.shutdown then .throw .enodev
  else if Misfits k d then .throw .einval
  else .when (!k.chip.streaming) babyfaceStreamStart

/-! ## The sections alone -/

/-- With no other thread in between, a section does what the callback `m` does in one step; it waits for
nothing if no START holds a stream lock, and it takes its lone kills in states that meet `C`. -/
def Alone {α : Type} (C : LoneKill → Shared → Prop) (p : Sec α) (m : Pcm α) : Prop :=
  ∀ s : Shared, p.run s = ((m s.world).1, { s with world := (m s.world).2 }) ∧
    ((∀ d, s.starting d = false) → Section.Clear C p s)

section

variable {C : LoneKill → Shared → Prop} {α β : Type}

/-- A part that is one act. -/
theorem Alone.atomic (m : Pcm α) : Alone C (atomic m) m := by
  intro s
  unfold Interleaved.atomic
  simp only [Prog.run, Section.Clear]
  refine ⟨?_, fun _ => ⟨trivial, trivial, ?_⟩⟩
  · cases (m s.world).1 <;> rfl
  · cases (m s.world).1 <;> trivial

/-- One part after another. -/
theorem Alone.bind {p : Sec α} {m : Pcm α} {f : α → Sec β} {g : α → Pcm β} (hp : Alone C p m)
    (hf : ∀ a, Alone C (f a) (g a)) : Alone C (p >>= f) (m >>= g) := by
  intro s
  obtain ⟨hrun, hclear⟩ := hp s
  refine ⟨?_, fun hfree => (hclear hfree).settle (fun a _ => ?_) fun _ _ => trivial⟩
  · rw [Section.Prog.bind_run, hrun, Bus.M.bind_run]
    rcases m s.world with ⟨e | a, w⟩
    · rfl
    · exact (hf a _).1
  · rw [hrun]
    exact (hf a _).2 hfree

/-- A value. -/
theorem Alone.pure (a : α) : Alone C (.ret a : Sec α) (Pure.pure a) := fun _ => ⟨rfl, fun _ => trivial⟩

/-- An error. -/
theorem Alone.throw (e : Errno) : Alone C (.throw e : Sec α) (Bus.M.throw e) :=
  fun _ => ⟨rfl, fun _ => trivial⟩

/-- Both branches. -/
theorem Alone.ite (c : Prop) [Decidable c] {p q : Sec α} {m n : Pcm α} (hp : Alone C p m)
    (hq : Alone C q n) : Alone C (if c then p else q) (if c then m else n) := by
  split
  · exact hp
  · exact hq

/-- What a test guards. -/
theorem Alone.when (c : Bool) {p : Sec Unit} {m : Pcm Unit} (hp : Alone C p m) :
    Alone C (.when c p) (Bus.M.when c m) := by
  cases c with
  | true => exact hp
  | false => exact .pure ()

/-- Every item of a loop. -/
theorem Alone.each (l : List β) {f : β → Sec Unit} {g : β → Pcm Unit}
    (h : ∀ b, Alone C (f b) (g b)) : Alone C (.each l f) (Bus.M.each l g) := by
  induction l with
  | nil => exact .pure ()
  | cons b l ih => exact (h b).bind fun _ => ih

/-- A change of the card. -/
theorem Alone.change {i : Option LoneKill} (hi : ∀ s, Section.Meets C i s) (f : Card → Card) :
    Alone C (.change i (fun _ => True) (Shared.onCard f)) (modify f) :=
  fun s => ⟨rfl, fun _ => ⟨trivial, hi s, trivial⟩⟩

/-- A part whose error is followed by a clean-up. -/
theorem Alone.onError {p : Sec α} {m : Pcm α} {i : Option LoneKill} {f : Card → Card}
    (hp : Alone C p m) (hi : ∀ s, Section.Meets C i s) :
    Alone C (p.onError (.change i (fun _ => True) (Shared.onCard f))) (Bus.M.rollback m f) := by
  intro s
  obtain ⟨hrun, hclear⟩ := hp s
  refine ⟨?_, fun hfree => (hclear hfree).settle (fun _ _ => trivial) fun _ _ =>
    ⟨trivial, hi _, trivial⟩⟩
  rw [Prog.onError, Section.Prog.settle_run, hrun, Bus.M.rollback]
  rcases m s.world with ⟨e | a, w⟩ <;> rfl

/-- The turn of one direction in `babyface_pcm_stop_both`. -/
theorem stopOne_alone (d : Dir) (st : PcmState) :
    Alone C (stopOne d st) (modify (stoppedOne d st)) :=
  fun _ => ⟨rfl, fun hfree => ⟨hfree d, trivial, trivial⟩⟩

/-- Both turns of `babyface_pcm_stop_both`. -/
theorem stoppedOne_both (st : PcmState) (k : Card) :
    stoppedOne .capture st (stoppedOne .playback st k) = stoppedBoth st k := by
  unfold stoppedOne stoppedBoth
  congr 1
  funext d
  cases d <;> simp [Function.update]

/-- Both turns of `babyface_pcm_stop_both`, alone. -/
theorem babyfacePcmStopBoth_alone (st : PcmState) :
    Alone C (babyfacePcmStopBoth st) (BabyfacePro.babyfacePcmStopBoth st) := by
  have hboth : BabyfacePro.babyfacePcmStopBoth st = (do
      modify (stoppedOne .playback st)
      modify (stoppedOne .capture st)) := by
    funext w
    show _ = (Except.ok (), { w with chip := stoppedOne .capture st (stoppedOne .playback st w.chip) })
    rw [stoppedOne_both]
    rfl
  rw [hboth]
  exact (stopOne_alone _ st).bind fun _ => stopOne_alone _ st

/-- The stop of a session, alone. -/
theorem stopSession_alone : Alone C stopSession BabyfacePro.stopSession :=
  (Alone.atomic get).bind fun _ => .when _ <|
    (Alone.change (i := none) (fun _ => trivial) killed).bind fun _ =>
      babyfacePcmStopBoth_alone .xrun

/-- The URBs and the arm of a start, alone. -/
theorem submitAndArm_alone (n : ℕ) : Alone C (submitAndArm n) (BabyfacePro.submitAndArm n) :=
  (Alone.each _ fun _ => (Alone.atomic usbSubmitUrb).bind fun _ => .atomic usbSubmitUrb).bind
    fun _ => .atomic (onChip bfSessionArm)

/-- `babyface_stream_start` up to its error path: the counts and the flag in two acts. -/
theorem startSession_alone : Alone C startSession BabyfacePro.startSession := by
  have hlive : BabyfacePro.startSession = (do
      onChip bfSessionTrigger
      let k ← get
      modify counted
      modify raised
      BabyfacePro.submitAndArm k.chip.urbs_active) := rfl
  rw [hlive]
  exact (Alone.atomic _).bind fun _ => (Alone.atomic get).bind fun k =>
    (Alone.atomic _).bind fun _ => (Alone.change (i := none) (fun _ => trivial) raised).bind fun _ =>
      submitAndArm_alone _

/-- `babyface_stream_start`, alone. -/
theorem babyfaceStreamStart_alone (hC : ∀ s, C .startFailed s) :
    Alone C babyfaceStreamStart BabyfacePro.babyfaceStreamStart :=
  startSession_alone.onError (i := some .startFailed) hC

/-- The section of `babyface_disconnect`, alone. -/
theorem killSection_alone : Alone C killSection BabyfacePro.killSection :=
  (Alone.atomic get).bind fun _ => .when _ (Alone.change (i := none) (fun _ => trivial) killed)

/-- `babyface_stream_work`, alone. -/
theorem babyfaceStreamWork_alone : Alone C babyfaceStreamWork BabyfacePro.babyfaceStreamWork :=
  (Alone.atomic get).bind fun _ => .when _ <| killSection_alone.bind fun _ =>
    (babyfacePcmStopBoth_alone .xrun).bind fun _ => .atomic _

/-- The rate's part of `babyface_pcm_hw_params`, alone. -/
theorem hwParamsRate_alone (d : Dir) (r : BfRate) :
    Alone C (hwParamsRate d r) (BabyfacePro.hwParamsRate d r) :=
  (Alone.atomic get).bind fun _ => .ite _ (.pure false) <| .ite _ (.throw _) <|
    stopSession_alone.bind fun _ => (Alone.atomic _).bind fun _ => .pure true

/-- The URBs' part of it, alone. -/
theorem hwParamsUrbs_alone (urb_split : ℤ) (d : Dir) (r : BfRate) (urb period : ℕ) (new : Bool) :
    Alone C (hwParamsUrbs urb_split d r urb period new)
      (BabyfacePro.hwParamsUrbs urb_split d r urb period new) :=
  (Alone.atomic get).bind fun _ => .ite _ (.ite _ (.throw _) (.pure ())) <| .ite _ (.ite _
    (stopSession_alone.bind fun _ => (Alone.atomic _).bind fun _ => .atomic _) (.atomic _)) (.pure ())

/-- Alone, hw_params does what its callback does in one step. -/
theorem babyfacePcmHwParams_alone (urb_split : ℤ) (d : Dir) (params : Runtime) :
    Alone C (babyfacePcmHwParams urb_split d params)
      (BabyfacePro.babyfacePcmHwParams urb_split d params) := by
  unfold babyfacePcmHwParams BabyfacePro.babyfacePcmHwParams
  cases bfRateLookup params.rate with
  | none => exact .throw _
  | some r => exact (Alone.atomic get).bind fun k => .ite _ (.throw _) <| .ite _ (.throw _) <|
      (hwParamsRate_alone d r).bind fun new => (hwParamsUrbs_alone _ _ _ _ _ new).bind fun _ =>
        .atomic _

/-- Alone, hw_free does what its callback does in one step. -/
theorem babyfacePcmHwFree_alone (hC : ∀ s, C .lastFreed s) (d : Dir) :
    Alone C (babyfacePcmHwFree d) (BabyfacePro.babyfacePcmHwFree d) :=
  (Alone.atomic get).bind fun _ => .when _ <| (Alone.atomic _).bind fun _ =>
    (Alone.atomic get).bind fun _ => .when _ (Alone.change (i := some .lastFreed) hC killed)

/-- The section of the callback, without the counters that follow it. -/
def prepareSection (d : Dir) : Pcm Unit := do
  let k ← get
  if k.chip.shutdown then Bus.M.throw .enodev
  else if Misfits k d then Bus.M.throw .einval
  else Bus.M.when (!k.chip.streaming) BabyfacePro.babyfaceStreamStart

/-- `babyface_pcm_prepare` is its section under the mutex, and the reset of the pointer. -/
theorem babyfacePcmPrepare_section (d : Dir) :
    BabyfacePro.babyfacePcmPrepare d = (do prepareSection d; modify (ptrReset d)) := by
  unfold BabyfacePro.babyfacePcmPrepare prepareSection
  rw [bind_assoc]
  congr 1
  funext k
  split_ifs <;> rfl

/-- Alone, the section of prepare does what that of its callback does in one step. -/
theorem babyfacePcmPrepare_alone (hC : ∀ s, C .startFailed s) (d : Dir) :
    Alone C (babyfacePcmPrepare d) (prepareSection d) :=
  (Alone.atomic get).bind fun _ => .ite _ (.throw _) <| .ite _ (.throw _) <|
    .when _ (babyfaceStreamStart_alone hC)

/-- A prepare that succeeds alone takes no lone kill. -/
theorem babyfacePcmPrepare_clear {d : Dir} {s : Shared} (hfree : ∀ d, s.starting d = false)
    (hok : (prepareSection d s.world).1 = .ok ()) : Section.Clear C (babyfacePcmPrepare d) s := by
  refine ⟨trivial, trivial, ?_⟩
  show Section.Clear C (if s.card.chip.shutdown then .throw .enodev
    else if Misfits s.card d then .throw .einval
    else .when (!s.card.chip.streaming) babyfaceStreamStart) s
  split_ifs with hdown hmis
  · trivial
  · trivial
  · cases hlive : s.card.chip.streaming with
    | true => trivial
    | false =>
      obtain ⟨hrun, hclear⟩ := startSession_alone (C := C) s
      refine (hclear hfree).settle (fun _ _ => trivial) fun e he => ?_
      have hstart : prepareSection d s.world = BabyfacePro.babyfaceStreamStart s.world := by
        unfold prepareSection
        rw [Bus.M.bind_of_ok (Bus.M.get_run s.world), Bus.M.ite_run, Bus.M.ite_run, if_neg hdown,
          if_neg hmis, hlive]
        rfl
      -- The start has failed, and so has the prepare.
      rw [hrun] at he
      rcases hm : BabyfacePro.startSession s.world with ⟨res, w⟩
      rw [hm] at he
      obtain rfl : res = .error e := he
      rw [hstart, BabyfacePro.babyfaceStreamStart, Bus.M.rollback_of_error hm] at hok
      cases hok

end

/-! ## The threads -/

/-- A callback in its section, and where its result leaves the call of the core. -/
def inCall (d : Dir) (p : Sec Unit) (ok bad : Call) : Sec Unit :=
  p.settle (fun _ => .change none (fun _ => True) (Shared.called d ok))
    fun _ => .change none (fun _ => True) (Shared.called d bad)

/-- The sections that wait for `chip->mutex`. -/
inductive Waits (urb_split : ℤ) : Shared → Sec Unit → Prop
  | hwParams (d : Dir) (params : Runtime) {s : Shared} (h : s.call d = .hwParams params) :
      Waits urb_split s
        (inCall d (babyfacePcmHwParams urb_split d params) (.accepted params) .refused)
  | hwFree (d : Dir) {s : Shared} (h : s.call d = .hwFree) :
      Waits urb_split s (inCall d (babyfacePcmHwFree d) .freed .freed)
  | prepare (d : Dir) {s : Shared} (h : s.call d = .prepare) :
      Waits urb_split s (inCall d (babyfacePcmPrepare d) .prepared .idle)
  /-- The sections of open and close. -/
  | owner (d : Dir) (pid : ℕ) {s : Shared} (hs : s.card.state d = .open) (h : s.call d = .idle) :
      Waits urb_split s
        (atomic (modify fun k =>
          { k with chip := { k.chip with owner := Function.update k.chip.owner d pid } }))
  | work (s : Shared) : Waits urb_split s babyfaceStreamWork
  | disconnect {s : Shared} (h : s.card.chip.shutdown = true) :
      Waits urb_split s killSection
  /-- The controls, the panel and the resume leave the stream's part of the state alone. -/
  | rest {f : Chip → Chip} (hf : ∀ c, (f c).toStream = c.toStream) (s : Shared) :
      Waits urb_split s (atomic (modify fun k => { k with chip := f k.chip }))

/-- What happens without the mutex. What sets the state of a substream has its stream lock, which no
START holds then. -/
inductive Other : Shared → Shared → Prop
  /-- The pointer of open and close. -/
  | subs (d : Dir) (b : Bool) {s : Shared} (hs : s.card.state d = .open) (h : s.call d = .idle) :
      Other s (s.onCard fun k =>
        { k with chip := { k.chip with subs := Function.update k.chip.subs d b } })
  /-- The core's hw_params, with at least two periods to a buffer. -/
  | hwParams (d : Dir) (params : Runtime) {s : Shared} (h : s.call d = .idle)
      (ho : s.card.chip.subs d = true)
      (hs : s.card.state d = .open ∨ s.card.state d = .setup ∨ s.card.state d = .prepared)
      (hp : 2 * params.period_size ≤ params.buffer_size) :
      Other s (s.called d (.hwParams params))
  | accepted (d : Dir) (params : Runtime) {s : Shared} (h : s.call d = .accepted params)
      (hl : s.starting d = false) :
      Other s ((s.onCard (withParams d params)).called d .idle)
  /-- A hw_params that the core refuses, or the driver before it takes the mutex. -/
  | refuse (d : Dir) {s : Shared} (h : s.call d = .idle) (ho : s.card.chip.subs d = true)
      (hs : s.card.state d = .open ∨ s.card.state d = .setup ∨ s.card.state d = .prepared) :
      Other s (s.called d .refused)
  | refused (d : Dir) {s : Shared} (h : s.call d = .refused) (hl : s.starting d = false) :
      Other s ((s.onCard (inState d .open)).called d .hwFree)
  /-- The core's hw_free, also that of a close, which has stopped the substream before. -/
  | hwFree (d : Dir) {s : Shared} (h : s.call d = .idle) (ho : s.card.state d ≠ .open)
      (hs : (s.card.state d).isRunning d = false) : Other s (s.called d .hwFree)
  | freed (d : Dir) {s : Shared} (h : s.call d = .freed) (hl : s.starting d = false) :
      Other s ((s.onCard (inState d .open)).called d .idle)
  | prepare (d : Dir) {s : Shared} (h : s.call d = .idle) (ho : s.card.state d ≠ .open)
      (hd : s.card.state d ≠ .disconnected) (hs : (s.card.state d).isRunning d = false) :
      Other s (s.called d .prepare)
  | prepared (d : Dir) {s : Shared} (h : s.call d = .prepared) (hl : s.starting d = false) :
      Other s ((s.onCard fun k => inState d .prepared (ptrReset d k)).called d .idle)
  /-- A START reads `->streaming` as set. -/
  | startRead (d : Dir) {s : Shared} (hs : s.card.state d = .prepared) (hl : s.starting d = false)
      (h : s.card.chip.streaming = true) : Other s (s.startedBy d true)
  /-- A START finds that the substream does not fit. -/
  | startMisfit (d : Dir) {s : Shared} (h : s.starting d = true) (hm : Misfits s.card d) :
      Other s (s.startedBy d false)
  /-- A START succeeds. -/
  | startRun (d : Dir) {s : Shared} (h : s.starting d = true) (hm : ¬ Misfits s.card d) :
      Other s ((s.onCard fun k => inState d .running (ptrReset d k)).startedBy d false)
  /-- A STOP, an xrun, a drop or a drain. -/
  | stop (d : Dir) (st : PcmState) {s : Shared} (hl : s.starting d = false)
      (ho : s.card.state d ≠ .open) (hd : s.card.state d ≠ .disconnected)
      (hst : st = .setup ∨ st = .xrun ∨ st = .draining) : Other s (s.onCard (inState d st))
  /-- What a URB handler counts. -/
  | urb (ptr period : Dir → ℕ) (inflight : ℕ) (err : ℤ) (s : Shared) :
      Other s (s.onCard fun k =>
        { k with
          chip :=
            { k.chip with
              hw_ptr := ptr
              prev_period := period
              out_inflight := inflight
              urb_err := err } })
  /-- `babyface_disconnect` begins. -/
  | shutdown (s : Shared) :
      Other s (s.onCard fun k => { k with chip := { k.chip with shutdown := true } })
  /-- The substreams of a card that goes away. -/
  | disconnected (d : Dir) {s : Shared} (h : s.card.chip.shutdown = true)
      (hl : s.starting d = false) : Other s (s.onCard (inState d .disconnected))
  | outcomes (usb : ℕ → Bool) (s : Shared) :
      Other s { s with world := { s.world with usb := usb } }

/-- The states of the threads that lead on from a probe with the parameters `p`, when the lone kills are
taken in states that meet `C`. -/
def Reaches (p : Params) (C : LoneKill → Shared → Prop)
    (m : Section.Monitor Shared LoneKill Errno Unit) : Prop :=
  ∃ w₀, FreshPcm p w₀ ∧
    Relation.ReflTransGen (Section.Step Other (Waits p.urb_split) C) ⟨⟨w₀, fun _ => false,
      fun _ => .idle⟩, none⟩ m

end Interleaved

end BabyfacePro
