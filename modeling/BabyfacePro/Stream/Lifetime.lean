import BabyfacePro.Lib.Grace
import BabyfacePro.Stream.Faults

/-!
# The life of a card

From the registration of the card to `babyface_private_free`, five kinds of threads step in any order: the
USB core, which makes one call at a time (the end of the probe, suspend, resume, disconnect); the two
works; the handlers of the URBs; and applications with open files. The card is freed with its last file
after a disconnect, and with it the URBs, their buffers, the works and the mutex. `Sound` is what holds of
them all in every reachable state. What the applications hold besides, the runtimes of the substreams, the
handlers read under RCU: `runtime_unheld` says that nobody has one whose file is closed.

Suspend and resume run while the tasks are frozen, outside the driver. The transfers of the panel's poll,
and the puts of the controls, take the mutex for a while and are left out: they only delay the others.
-/

namespace BabyfacePro

open Grace (Rcu)

/-! ## The threads -/

/-- Who reads `chip->subs`. -/
inductive Reader where
  /-- The handler of a URB. -/
  | urb (d : Dir) (i : ℕ)
  /-- `babyface_stream_work`, in `babyface_pcm_stop_both`. -/
  | work
  /-- `babyface_pcm_hw_params`, in it. -/
  | call
  /-- `babyface_disconnect`, in it. -/
  | core
  deriving DecidableEq, Repr

/-- Where a substream is between open and close. Its runtime is there unless it is `closed`. -/
inductive SubAt where
  | closed
  /-- `babyface_pcm_open`, before it sets the pointer. -/
  | opening
  | opened
  /-- `babyface_pcm_close`, before it clears the pointer. -/
  | closing
  /-- `synchronize_rcu`. -/
  | waiting
  deriving DecidableEq, Repr

/-- Where `babyface_panel_work` is. -/
inductive PanelAt where
  | idle
  /-- Before the test of `->shutdown`. -/
  | check
  | tick
  /-- After `schedule_delayed_work`, or past it. -/
  | leave
  deriving DecidableEq, Repr

/-- `chip->panel_work`. -/
structure PanelWork where
  pending : Bool := false
  place : PanelAt := .idle
  /-- `cancel_delayed_work_sync` is under way, and the work cannot be queued. -/
  cancelling : Bool := false

/-- The poll goes on: the work is queued, or it is going to queue itself. -/
def PanelWork.Lives (w : PanelWork) : Prop := w.pending = true ∨ w.place = .check ∨ w.place = .tick

/-- Neither queued nor running. -/
def PanelWork.Idle (w : PanelWork) : Prop := w.pending = false ∧ w.place = .idle

/-- Which of the two calls stops the card's works. -/
inductive Why where
  | disconnect
  | suspend
  deriving DecidableEq, Repr

/-- Where `babyface_disconnect` or `babyface_suspend` is, in what they have in common. -/
inductive HaltAt where
  /-- Before the section under the mutex. -/
  | lock
  /-- In `babyface_stream_kill`, with the mutex. -/
  | kill
  /-- Before `cancel_work_sync` of `chip->stream_work`. -/
  | cancel
  /-- Before `cancel_delayed_work_sync` of `chip->panel_work`. -/
  | panel
  /-- In it. -/
  | wait
  deriving DecidableEq, Repr

/-- Where the USB core is with the interface. -/
inductive CoreAt where
  /-- `babyface_probe`, once the card is registered. -/
  | probe
  /-- No call is under way. The panel was started, unless the last resume has failed. -/
  | bound (started : Bool)
  | halt (why : Why) (p : HaltAt)
  /-- `babyface_disconnect`, in `babyface_pcm_stop_both`. -/
  | stopSubs
  | suspended
  | resume
  /-- After `babyface_disconnect`. -/
  | gone
  /-- After `babyface_private_free`. -/
  | freed
  deriving DecidableEq, Repr

/-- What is left of the two calls once the works are stopped. -/
def Why.after : Why → CoreAt
  | disconnect => .stopSubs
  | suspend => .suspended

namespace CoreAt

/-- `->shutdown` is set. -/
def down : CoreAt → Bool
  | halt why _ => decide (why = .disconnect)
  | stopSubs | gone | freed => true
  | _ => false

/-- The tasks are frozen. -/
def frozen : CoreAt → Bool
  | halt why _ => decide (why = .suspend)
  | suspended | resume => true
  | _ => false

/-- The USB core's thread has the mutex. -/
def kills : CoreAt → Bool
  | halt _ .kill => true
  | _ => false

/-- The session is killed, and cannot be brought up. -/
def quiet : CoreAt → Bool
  | halt _ .cancel | halt _ .panel | halt _ .wait | stopSubs | suspended | resume | gone | freed => true
  | _ => false

/-- `chip->stream_work` is cancelled. -/
def cancelled : CoreAt → Bool
  | halt _ .panel | halt _ .wait | stopSubs | suspended | resume | gone | freed => true
  | _ => false

/-- `chip->panel_work` is cancelled. -/
def parked : CoreAt → Bool
  | stopSubs | suspended | resume | gone | freed => true
  | _ => false

end CoreAt

/-- A section of `babyface_stream_work`. -/
def Holder.isWork : Holder → Bool
  | .check | .test | .clear | .mark .work | .kill .work _ => true
  | _ => false

/-- A section that starts or stops a session, and is not the work's. -/
def Holder.isCall : Holder → Bool
  | .start _ | .mark .start | .mark .other | .kill .start _ | .kill .other _ => true
  | _ => false

/-- The card with everything that may use it. -/
structure Life where
  queue : UrbQueue
  panel : PanelWork := {}
  core : CoreAt := .probe
  sub : Dir → SubAt := fun _ => .closed
  /-- An application is in hw_params, prepare or hw_free of the substream. -/
  call : Dir → Bool := fun _ => false
  /-- Open files of the card, but for those of the PCM substreams. -/
  files : ℕ := 0
  rcu : Rcu Reader Dir := .fresh

namespace Life

/-- An application has the mutex. -/
def Calls (s : Life) : Prop := s.queue.holder.isCall = true ∧ s.core.kills = false

/-- An application's section begins, or is done in one step. -/
def Takes (q q' : UrbQueue) : Prop :=
  q.holder = .free ∧ (q'.holder.isCall = true ∨ q'.chip.urbs_active ≠ q.chip.urbs_active)

/-- Who may take a step of the URBs that is not one of the USB core's thread. -/
structure Owned (s : Life) (q : UrbQueue) : Prop where
  shutdown : q.chip.shutdown = s.queue.chip.shutdown
  cancel : ¬ (s.queue.pending = true ∧ q.pending = false ∧ q.active = s.queue.active)
  /-- The sections of the applications are those of a callback. -/
  call : Takes s.queue q → ∃ d, s.call d = true
  /-- The thread that kills the session leaves the mutex itself. -/
  kill : s.core.kills = true → q.holder ≠ .free
  /-- A handler that reads `chip->subs` does not go on. -/
  audio (d : Dir) (i : ℕ) : s.rcu.reading (.urb d i) = true → q.urb d i = .audio
  work : s.rcu.reading .work = true → q.holder = .clear

/-- Where a reader enters its section. -/
def MayRead (s : Life) : Reader → Prop
  | .urb d i => s.queue.urb d i = .audio
  | .work => s.queue.holder = .clear
  | .call => ∃ d, s.call d = true
  | .core => s.core = .stopSubs

/-- The tasks can be frozen: none of them is in the driver. -/
def Freezable (s : Life) : Prop :=
  ∀ d, s.call d = false ∧ (s.sub d = .closed ∨ s.sub d = .opened)

end Life

/-- A step of any thread. -/
inductive LifeStep : Life → Life → Prop
  /-- A step of a handler, of the stream's work, or of an application's section. -/
  | thread {s : Life} {q : UrbQueue} (h : QueueStep s.queue q) (ho : s.Owned q) :
      LifeStep s { s with queue := q }
  | enter {s : Life} {r : Reader} (h : s.MayRead r) (hr : s.rcu.reading r = false) :
      LifeStep s { s with rcu := s.rcu.enter r }
  | load {s : Life} {r : Reader} (h : s.rcu.reading r = true) (d : Dir) :
      LifeStep s { s with rcu := s.rcu.load r d }
  | leave {s : Life} {r : Reader} (h : s.rcu.reading r = true) :
      LifeStep s { s with rcu := s.rcu.leave r }
  | openFile {s : Life} (h : s.core ≠ .gone ∧ s.core ≠ .freed) (hf : s.core.frozen = false) :
      LifeStep s { s with files := s.files + 1 }
  | closeFile {s : Life} {n : ℕ} (h : s.files = n + 1) (hf : s.core.frozen = false) :
      LifeStep s { s with files := n }
  | openBegin {s : Life} {d : Dir} (h : s.sub d = .closed) (hc : s.core ≠ .gone ∧ s.core ≠ .freed)
      (hf : s.core.frozen = false) : LifeStep s { s with sub := Function.update s.sub d .opening }
  | openFails {s : Life} {d : Dir} (h : s.sub d = .opening) :
      LifeStep s { s with sub := Function.update s.sub d .closed }
  | openDone {s : Life} {d : Dir} (h : s.sub d = .opening) :
      LifeStep s { s with sub := Function.update s.sub d .opened, rcu := s.rcu.publish d }
  | callBegin {s : Life} {d : Dir} (h : s.sub d = .opened) (hf : s.core.frozen = false) :
      LifeStep s { s with call := Function.update s.call d true }
  /-- A callback returns, without the mutex and outside `babyface_pcm_stop_both`. -/
  | callEnd {s : Life} {d : Dir} (h : s.call d = true)
      (hr : s.Calls ∨ s.rcu.reading .call = true → s.call d.other = true) :
      LifeStep s { s with call := Function.update s.call d false }
  /-- `flush_work` may return at any time here. -/
  | closeBegin {s : Life} {d : Dir} (h : s.sub d = .opened) (hc : s.call d = false)
      (hf : s.core.frozen = false) : LifeStep s { s with sub := Function.update s.sub d .closing }
  | closeClear {s : Life} {d : Dir} (h : s.sub d = .closing) :
      LifeStep s { s with sub := Function.update s.sub d .waiting, rcu := s.rcu.retract d }
  | closeDone {s : Life} {d : Dir} (h : s.sub d = .waiting) (ho : s.rcu.Over d) :
      LifeStep s { s with sub := Function.update s.sub d .closed }
  | panelBegin {s : Life} (hp : s.panel.pending = true) (h : s.panel.place = .idle) :
      LifeStep s { s with panel := { s.panel with pending := false, place := .check } }
  | panelTest {s : Life} (h : s.panel.place = .check) :
      LifeStep s
        { s with
          panel := { s.panel with place := if s.queue.chip.shutdown then .leave else .tick } }
  /-- `schedule_delayed_work`, after the tick. -/
  | panelRearm {s : Life} (h : s.panel.place = .tick) :
      LifeStep s
        { s with
          panel := { s.panel with place := .leave, pending := s.panel.pending || !s.panel.cancelling } }
  | panelEnd {s : Life} (h : s.panel.place = .leave) :
      LifeStep s { s with panel := { s.panel with place := .idle } }
  /-- `babyface_panel_start`, at the end of the probe. -/
  | probed {s : Life} (h : s.core = .probe) :
      LifeStep s { s with core := .bound true, panel := { s.panel with pending := true } }
  | disconnect {s : Life} (h : (∃ b, s.core = .bound b) ∨ s.core = .suspended) :
      LifeStep s
        { s with
          core := .halt .disconnect .lock
          queue := { s.queue with chip := { s.queue.chip with shutdown := true } } }
  | suspend {s : Life} {b : Bool} (h : s.core = .bound b) (hf : s.Freezable) :
      LifeStep s { s with core := .halt .suspend .lock }
  /-- A session that runs is killed under the mutex. -/
  | lockKill {s : Life} {why : Why} (h : s.core = .halt why .lock) (hm : s.queue.holder = .free)
      (hs : s.queue.chip.streaming = true) :
      LifeStep s
        { s with core := .halt why .kill, queue := { s.queue with holder := .mark .other } }
  | lockPass {s : Life} {why : Why} (h : s.core = .halt why .lock) (hm : s.queue.holder = .free)
      (hs : s.queue.chip.streaming = false) : LifeStep s { s with core := .halt why .cancel }
  | killed {s : Life} {why : Why} (h : s.core = .halt why .kill)
      (hm : s.queue.holder = .kill .other (2 * s.queue.chip.nurbs)) :
      LifeStep s { s with core := .halt why .cancel, queue := { s.queue with holder := .free } }
  | cancelled {s : Life} {why : Why} (h : s.core = .halt why .cancel) (ha : s.queue.active = false) :
      LifeStep s { s with core := .halt why .panel, queue := { s.queue with pending := false } }
  | panelCancel {s : Life} {why : Why} (h : s.core = .halt why .panel) :
      LifeStep s
        { s with
          core := .halt why .wait
          panel := { s.panel with pending := false, cancelling := true } }
  | panelStopped {s : Life} {why : Why} (h : s.core = .halt why .wait)
      (hp : s.panel.place = .idle) :
      LifeStep s
        { s with core := why.after, panel := { s.panel with cancelling := false } }
  /-- `snd_card_disconnect` and `snd_card_free_when_closed`. -/
  | gone {s : Life} (h : s.core = .stopSubs) (hr : s.rcu.reading .core = false) :
      LifeStep s { s with core := .gone }
  | resume {s : Life} (h : s.core = .suspended) : LifeStep s { s with core := .resume }
  /-- The replay is over, and the panel starts unless it has failed. -/
  | resumed {s : Life} (h : s.core = .resume) (ok : Bool) :
      LifeStep s
        { s with core := .bound ok, panel := { s.panel with pending := s.panel.pending || ok } }
  /-- The last file is closed. -/
  | free {s : Life} (h : s.core = .gone) (hf : s.files = 0) (hs : ∀ d, s.sub d = .closed) :
      LifeStep s { s with core := .freed }

namespace Life

/-- A card that has just been registered. -/
structure Fresh (s : Life) : Prop where
  queue : FreshQueue s.queue
  pending : s.queue.pending = false
  active : s.queue.active = false
  shutdown : s.queue.chip.shutdown = false
  panel : s.panel = {}
  core : s.core = .probe
  sub (d : Dir) : s.sub d = .closed
  call (d : Dir) : s.call d = false
  rcu : s.rcu = .fresh

/-- The states of a card. -/
def Reachable (s : Life) : Prop := ∃ s₀, Fresh s₀ ∧ Relation.ReflTransGen LifeStep s₀ s

end Life

/-! ## What holds of the URBs and the stream's work -/

/-- No session runs, and none is brought up or killed. -/
def UrbQueue.Settled (q : UrbQueue) : Prop :=
  q.chip.streaming = false ∧
    (q.holder = .free ∨ q.holder = .check ∨ q.holder = .test ∨ q.holder = .clear)

namespace UrbQueue.Settled

variable {q q' : UrbQueue}

/-- No URB is queued or being handled. -/
theorem dead (h : q.Settled) (hinv : q.Inv) (d : Dir) (i : ℕ) : (q.urb d i).dead = true := by
  apply hinv.dead h.1
  intro k
  rcases h.2 with hm | hm | hm | hm <;> rw [hm] <;> rfl

/-- Only an application brings up a session, and not on a card that is shut down. -/
theorem step (h : q.Settled) (hinv : q.Inv) (hst : QueueStep q q')
    (hcall : q.chip.shutdown = true ∨ ¬ Life.Takes q q') : q'.Settled := by
  obtain ⟨hs, hm⟩ := h
  cases hst with
  -- A handler runs on a URB that is alive, and none is on a settled queue.
  | handler d i hh =>
    have halive := hh.handled.alive
    simp [dead ⟨hs, hm⟩ hinv d i] at halive
  | prepare hf hd =>
    -- A prepare is an application's: it takes the free mutex, and finds the card not shut down.
    rcases hcall with hdown | htakes
    · simp [hd] at hdown
    · exact absurd ⟨hf, .inl rfl⟩ htakes
  | stop _ hrun => simp [hs] at hrun
  -- The work and an application's section need the mutex, which no section has now.
  | unlink d i hk => simp [hk] at hm
  | startFails hp => rcases hp with hp | ⟨k, hp⟩ <;> simp [hp] at hm
  | startWritten hp | startFill hp | startCount hp | startInflight hp | startLive hp | startSubmit _ _ hp
  | startDone hp | killMark hp | killUrb _ _ hp | killDone hp => simp [hp] at hm
  | geometry hf => exact ⟨hs, .inl hf⟩
  -- The flag, and the work of the stream, which finds nothing to stop.
  | shutdown => exact ⟨hs, hm⟩
  | workBegin => exact ⟨hs, hm⟩
  | workLock => exact ⟨hs, .inr (.inl rfl)⟩
  | workTest => exact ⟨hs, .inr (.inr (.inl rfl))⟩
  | workStop => exact ⟨hs, .inr (.inr (.inr (by rw [hs]; rfl)))⟩
  | workLeave => exact ⟨hs, .inl rfl⟩
  | workClear => exact ⟨hs, .inl rfl⟩
  | cancel => exact ⟨hs, hm⟩

/-- A work that is neither queued nor running stays so: no handler is left to queue it. -/
theorem idle (h : q.Settled) (hinv : q.Inv) (hst : QueueStep q q')
    (hidle : q.pending = false ∧ q.active = false) : q'.pending = false ∧ q'.active = false := by
  cases hst with
  | handler d i hh =>
    have halive := hh.handled.alive
    simp [dead h hinv d i] at halive
  | workBegin hp => simp [hidle.1] at hp
  | workLeave | workClear => exact ⟨hidle.1, rfl⟩
  | cancel => exact ⟨rfl, hidle.2⟩
  | _ => exact hidle

end UrbQueue.Settled

namespace QueueStep

variable {q q' : UrbQueue}

/-- `babyface_stream_work` runs while its section has the mutex. -/
theorem isWork (hst : QueueStep q q') (h : q.holder.isWork = true → q.active = true) :
    q'.holder.isWork = true → q'.active = true := by
  cases hst with
  | startFails | startWritten | startFill | startCount | startInflight | startLive | startSubmit
  -- None of these leaves the mutex with the section of the work.
  | startDone | prepare | stop | workLeave | workClear => exact fun hw => nomatch hw
  | workBegin => exact fun _ => rfl
  | workLock _ ha => exact fun _ => ha
  | workTest hm | workStop hm => exact fun _ => h (by rw [hm]; rfl)
  -- A kill goes on under the section that it serves, and the work's own is active.
  | @killMark _ who hm | @killUrb _ _ _ who hm =>
    intro hw
    apply h
    rw [hm]
    cases who with
    | work => rfl
    | start | other => cases hw
  | @killDone _ who hm =>
    cases who with
    | work => exact fun _ => h (by rw [hm]; rfl)
    | start | other => exact fun hw => nomatch hw
  | _ => exact h

/-- Where the section of an application comes from. -/
theorem isCall (hst : QueueStep q q') (h : q'.holder.isCall = true) :
    q.holder.isCall = true ∨ Life.Takes q q' := by
  cases hst with
  -- A section begins where an application takes the free mutex.
  | prepare hf | stop hf => exact .inr ⟨hf, .inl rfl⟩
  | startFails hp => rcases hp with hp | ⟨k, hp⟩ <;> exact .inl (by rw [hp]; rfl)
  | startWritten hp | startFill hp | startCount hp | startInflight hp | startLive hp
  | startSubmit _ _ hp => exact .inl (by rw [hp]; rfl)
  -- A kill of the start or of the core is an application's own; the work's is not.
  | @killMark _ who hm | @killUrb _ _ _ who hm =>
    left
    rw [hm]
    cases who with
    | start | other => rfl
    | work => cases h
  -- What is left ends a section, or is the work's.
  | startDone | workLock | workTest | workLeave | workClear => cases h
  | workStop =>
    revert h
    dsimp only
    split <;> exact fun h => nomatch h
  | killDone =>
    revert h
    dsimp only
    split <;> exact fun h => nomatch h
  | handler | unlink | geometry | shutdown | workBegin | cancel => exact .inl h

/-- A kill that is not the work's goes on until it leaves the mutex. -/
theorem kill_other (hst : QueueStep q q')
    (h : q.holder = .mark .other ∨ ∃ k, q.holder = .kill .other k) :
    q'.holder = .free ∨ q'.holder = .mark .other ∨ ∃ k, q'.holder = .kill .other k := by
  cases hst with
  | handler | unlink | shutdown | workBegin | cancel => exact .inr h
  -- The kill marks the URBs first and then waits for each of them.
  | killMark hm =>
    rcases h with h | ⟨k, h⟩
    · cases hm.symm.trans h
      exact .inr (.inr ⟨0, rfl⟩)
    · cases hm.symm.trans h
  | killUrb d i hm =>
    rcases h with h | ⟨k, h⟩
    · cases hm.symm.trans h
    · cases hm.symm.trans h
      exact .inr (.inr ⟨_, rfl⟩)
  | killDone hm =>
    rcases h with h | ⟨k, h⟩
    · cases hm.symm.trans h
    · cases hm.symm.trans h
      exact .inl rfl
  -- No other section can be under way while the kill has the mutex.
  | startFails hp => rcases hp with hp | ⟨_, hp⟩ <;> rcases h with h | ⟨_, h⟩ <;> cases hp.symm.trans h
  | workLeave hp =>
    rcases hp with ⟨hp, -⟩ | ⟨hp, -⟩ <;> rcases h with h | ⟨_, h⟩ <;> cases hp.symm.trans h
  | prepare hp | startWritten hp | startFill hp | startCount hp | startInflight hp | startLive hp
  | startSubmit _ _ hp | startDone hp | stop hp | geometry hp | workLock hp | workTest hp | workStop hp
  | workClear hp => rcases h with h | ⟨_, h⟩ <;> cases hp.symm.trans h

end QueueStep

/-! ## What holds of the threads -/

namespace CoreAt

/-- The work is cancelled after the session is killed. -/
theorem quiet_of_cancelled {c : CoreAt} (h : c.cancelled = true) : c.quiet = true := by
  cases c with
  | halt why p => cases p <;> first | rfl | cases h
  | _ => first | rfl | cases h

/-- Where the session is killed, none can come up. -/
theorem quiet_cases {c : CoreAt} (h : c.quiet = true) : c.down = true ∨ c.frozen = true := by
  cases c with
  | halt why p =>
    cases why with
    | disconnect => exact .inl rfl
    | suspend => exact .inr rfl
  | stopSubs | gone | freed => exact .inl rfl
  | suspended | resume => exact .inr rfl
  | _ => cases h

end CoreAt

namespace Life

/-- What holds between the USB core, the mutex, the stream's work, and the callbacks. -/
structure Guarded (s : Life) : Prop where
  queue : QueueReachable s.queue
  active : s.queue.holder.isWork = true → s.queue.active = true
  shutdown : s.queue.chip.shutdown = s.core.down
  frozen : s.core.frozen = true → ∀ d, s.call d = false
  calls : s.Calls → ∃ d, s.call d = true
  kill : s.core.kills = true →
    s.queue.holder = .mark .other ∨ ∃ k, s.queue.holder = .kill .other k
  settled : s.core.quiet = true → s.queue.Settled
  cancelled : s.core.cancelled = true → s.queue.pending = false ∧ s.queue.active = false

/-- A card that has just been registered. -/
theorem Fresh.guarded {s : Life} (h : s.Fresh) : s.Guarded where
  queue := ⟨_, h.queue, .refl⟩
  active := by simp [h.queue.holder, Holder.isWork]
  shutdown := by rw [h.shutdown, h.core]; rfl
  frozen _ := h.call
  calls hc := by simp [Calls, h.queue.holder, Holder.isCall] at hc
  kill hk := by simp [h.core, CoreAt.kills] at hk
  settled hq := by simp [h.core, CoreAt.quiet] at hq
  cancelled hq := by simp [h.core, CoreAt.cancelled] at hq

namespace Guarded

variable {s : Life}

/-- A step of a reachable queue leads to a reachable one. -/
theorem next (h : s.Guarded) {q : UrbQueue} (hst : QueueStep s.queue q) : QueueReachable q := by
  obtain ⟨s₀, hfresh, hrun⟩ := h.queue
  exact ⟨s₀, hfresh, hrun.tail hst⟩

/-- A step about the URBs. -/
theorem thread (h : s.Guarded) {q : UrbQueue} (hst : QueueStep s.queue q) (ho : s.Owned q) :
    Guarded { s with queue := q } where
  queue := h.next hst
  active := hst.isWork h.active
  shutdown := ho.shutdown.trans h.shutdown
  frozen := h.frozen
  calls hc := by
    rcases hst.isCall hc.1 with hold | htakes
    · exact h.calls ⟨hold, hc.2⟩
    · exact ho.call htakes
  kill hk := by
    rcases hst.kill_other (h.kill hk) with hfree | hkill
    · exact absurd hfree (ho.kill hk)
    · exact hkill
  settled hq := by
    refine (h.settled hq).step h.queue.inv hst ?_
    -- On a card that is not shut down the tasks are frozen, and no callback takes the mutex.
    refine (CoreAt.quiet_cases hq).imp (fun hdown => h.shutdown.trans hdown) fun hfrozen htakes => ?_
    obtain ⟨d, hd⟩ := ho.call htakes
    simp [h.frozen hfrozen d] at hd
  cancelled hq :=
    (h.settled (CoreAt.quiet_of_cancelled hq)).idle h.queue.inv hst (h.cancelled hq)

/-- The USB core goes on, and leaves the URBs alone. -/
theorem goes (h : s.Guarded) {c : CoreAt} (hdown : c.down = s.core.down)
    (hfrozen : c.frozen = true → ∀ d, s.call d = false)
    (hkills : c.kills = false) (hkills' : s.core.kills = false)
    (hsettled : c.quiet = true → s.queue.Settled)
    (hcancelled : c.cancelled = true → s.core.cancelled = true) (p : PanelWork) :
    Guarded { s with core := c, panel := p } where
  queue := h.queue
  active := h.active
  shutdown := h.shutdown.trans hdown.symm
  frozen := hfrozen
  calls hc := h.calls ⟨hc.1, hkills'⟩
  kill hk := absurd hk (by simp [hkills])
  settled := hsettled
  cancelled hc := h.cancelled (hcancelled hc)

/-- A callback begins, of a task that is not frozen. -/
theorem callBegin (h : s.Guarded) {d : Dir} (hf : s.core.frozen = false) :
    Guarded { s with call := Function.update s.call d true } :=
  { h with
    frozen := fun hfrozen => by simp [show s.core.frozen = true from hfrozen] at hf
    calls := fun _ => ⟨d, Function.update_self ..⟩ }

/-- A callback returns. If a callback has the mutex, it is the other substream's. -/
theorem callEnd (h : s.Guarded) {d : Dir} (hd : s.call d = true)
    (hr : s.Calls → s.call d.other = true) :
    Guarded { s with call := Function.update s.call d false } :=
  { h with
    frozen := fun hfrozen => by simp [h.frozen hfrozen d] at hd
    calls := fun hc => ⟨d.other, (Function.update_of_ne d.other_ne ..).trans (hr hc)⟩ }

/-- `disconnect` shuts the card down, and goes on to the mutex. -/
theorem disconnect (h : s.Guarded) (hc : (∃ b, s.core = .bound b) ∨ s.core = .suspended) :
    Guarded
      { s with
        core := .halt .disconnect .lock
        queue := { s.queue with chip := { s.queue.chip with shutdown := true } } } := by
  have hkills : s.core.kills = false := by rcases hc with ⟨b, hc⟩ | hc <;> rw [hc] <;> rfl
  exact
    { queue := h.next (.shutdown s.queue)
      active := h.active
      shutdown := rfl
      frozen := fun hc => nomatch hc
      calls := fun hcalls => h.calls ⟨hcalls.1, hkills⟩
      kill := fun hc => nomatch hc
      settled := fun hc => nomatch hc
      cancelled := fun hc => nomatch hc }

/-- Under the mutex the USB core marks a session for the kill. -/
theorem lockKill (h : s.Guarded) {why : Why} (hc : s.core = .halt why .lock)
    (hm : s.queue.holder = .free) (hs : s.queue.chip.streaming = true) :
    Guarded { s with core := .halt why .kill, queue := { s.queue with holder := .mark .other } } where
  queue := h.next (.stop hm hs)
  active hw := nomatch hw
  shutdown := h.shutdown.trans (by rw [hc]; rfl)
  frozen hfrozen := h.frozen (by rw [hc]; exact hfrozen)
  calls hcalls := nomatch hcalls.2
  kill _ := .inl rfl
  settled hq := nomatch hq
  cancelled hq := nomatch hq

/-- The last URB is killed: the session is settled, and the mutex is free. -/
theorem killed (h : s.Guarded) {why : Why} (hc : s.core = .halt why .kill)
    (hm : s.queue.holder = .kill .other (2 * s.queue.chip.nurbs)) :
    Guarded { s with core := .halt why .cancel, queue := { s.queue with holder := .free } } := by
  -- A kill has cleared `streaming` before.
  have hstill : s.queue.chip.streaming = false := by
    have hfits := h.queue.inv.fits
    rwa [hm] at hfits
  exact
    { queue := h.next (.killDone hm)
      active := fun hw => nomatch hw
      shutdown := h.shutdown.trans (by rw [hc]; rfl)
      frozen := fun hfrozen => h.frozen (by rw [hc]; exact hfrozen)
      calls := fun hcalls => nomatch hcalls.1
      kill := fun hk => nomatch hk
      settled := fun _ => ⟨hstill, .inl rfl⟩
      cancelled := fun hq => nomatch hq }

/-- `cancel_work_sync` of the stream's work returns. -/
theorem cancel (h : s.Guarded) {why : Why} (hc : s.core = .halt why .cancel)
    (ha : s.queue.active = false) :
    Guarded { s with core := .halt why .panel, queue := { s.queue with pending := false } } := by
  have hsettled := h.settled (by rw [hc]; rfl)
  exact
    { queue := h.next (.cancel (.inr hsettled.1) ha)
      active := h.active
      shutdown := h.shutdown.trans (by rw [hc]; rfl)
      frozen := fun hfrozen => h.frozen (by rw [hc]; exact hfrozen)
      calls := fun hcalls => h.calls ⟨hcalls.1, by rw [hc]; rfl⟩
      kill := fun hk => nomatch hk
      settled := fun _ => hsettled
      cancelled := fun _ => ⟨rfl, ha⟩ }

/-- `cancel_delayed_work_sync` of the panel's work returns. -/
theorem panelStopped (h : s.Guarded) {why : Why} (hc : s.core = .halt why .wait) (p : PanelWork) :
    Guarded { s with core := why.after, panel := p } := by
  have hfrozen (hf : why.after.frozen = true) : s.core.frozen = true := by
    rw [hc]
    cases why with
    | suspend | disconnect => exact hf
  exact h.goes (by rw [hc]; cases why <;> rfl) (fun hf => h.frozen (hfrozen hf))
    (by cases why <;> rfl) (by rw [hc]; rfl) (fun _ => h.settled (by rw [hc]; rfl))
    (fun _ => by rw [hc]; rfl) _

end Guarded

end Life

open Life

/-- Each step keeps what holds of the threads. -/
theorem LifeStep.guarded {s t : Life} (hst : LifeStep s t) (h : s.Guarded) : t.Guarded := by
  cases hst with
  | thread hq ho => exact h.thread hq ho
  -- What is said here names neither the files, the substreams, the readers nor the panel's work.
  | enter | load | leave | openFile | closeFile | openBegin | openFails | openDone | closeBegin
  | closeClear | closeDone | panelBegin | panelTest | panelRearm | panelEnd => exact { h with }
  | callBegin _ hf => exact h.callBegin hf
  | callEnd hd hr => exact h.callEnd hd fun hc => hr (.inl hc)
  | probed hc =>
    exact h.goes (c := .bound true) (by rw [hc]; rfl) nofun rfl (by rw [hc]; rfl) nofun nofun _
  | disconnect hc => exact h.disconnect hc
  | suspend hc hf =>
    exact h.goes (c := .halt .suspend .lock) (by rw [hc]; rfl) (fun _ d => (hf d).1) rfl
      (by rw [hc]; rfl) nofun nofun _
  | lockKill hc hm hs => exact h.lockKill hc hm hs
  | @lockPass why hc hm hs =>
    exact h.goes (c := .halt why .cancel) (by rw [hc]; rfl)
      (fun hfrozen => h.frozen (by rw [hc]; exact hfrozen)) rfl (by rw [hc]; rfl)
      (fun _ => ⟨hs, .inl hm⟩) nofun _
  | killed hc hm => exact h.killed hc hm
  | cancelled hc ha => exact h.cancel hc ha
  | @panelCancel why hc =>
    exact h.goes (c := .halt why .wait) (by rw [hc]; rfl)
      (fun hfrozen => h.frozen (by rw [hc]; exact hfrozen)) rfl (by rw [hc]; rfl)
      (fun _ => h.settled (by rw [hc]; rfl)) (fun _ => by rw [hc]; rfl) _
  | panelStopped hc => exact h.panelStopped hc _
  | gone hc =>
    exact h.goes (c := .gone) (by rw [hc]; rfl) nofun rfl (by rw [hc]; rfl)
      (fun _ => h.settled (by rw [hc]; rfl)) (fun _ => by rw [hc]; rfl) _
  | resume hc =>
    exact h.goes (c := .resume) (by rw [hc]; rfl) (fun _ => h.frozen (by rw [hc]; rfl)) rfl
      (by rw [hc]; rfl) (fun _ => h.settled (by rw [hc]; rfl)) (fun _ => by rw [hc]; rfl) _
  | resumed hc ok =>
    exact h.goes (c := .bound ok) (by rw [hc]; rfl) nofun rfl (by rw [hc]; rfl) nofun nofun _
  | free hc =>
    exact h.goes (c := .freed) (by rw [hc]; rfl) nofun rfl (by rw [hc]; rfl)
      (fun _ => h.settled (by rw [hc]; rfl)) (fun _ => by rw [hc]; rfl) _

namespace Life

/-! ## What holds of the panel's work -/

/-- What holds of `chip->panel_work`. -/
structure Polls (s : Life) : Prop where
  /-- A cancel that waits for the work keeps it off the queue. -/
  waits (why : Why) : s.core = .halt why .wait → s.panel.pending = false ∧ s.panel.cancelling = true
  free : (∀ why, s.core ≠ .halt why .wait) → s.panel.cancelling = false
  parked : s.core.parked = true → s.panel.Idle
  lives : s.core = .bound true → s.panel.Lives

/-- A card that has just been registered is not polled yet. -/
theorem Fresh.polls {s : Life} (h : s.Fresh) : s.Polls where
  waits why hw := by simp [h.core] at hw
  free _ := by rw [h.panel]
  parked hp := by simp [h.core, CoreAt.parked] at hp
  lives hl := by simp [h.core] at hl

namespace Polls

variable {s : Life}

/-- A step of the work itself. -/
theorem work (h : s.Polls) {w : PanelWork} (hc : w.cancelling = s.panel.cancelling)
    (hp : s.panel.pending = false → s.panel.cancelling = true → w.pending = false)
    (hi : ¬ s.panel.Idle) (hl : s.core = .bound true → s.panel.cancelling = false → w.Lives) :
    Polls { s with panel := w } where
  waits why hw := ⟨hp (h.waits why hw).1 (h.waits why hw).2, hc.trans (h.waits why hw).2⟩
  free hn := hc.trans (h.free hn)
  parked hpark := absurd (h.parked hpark) hi
  lives hb := hl hb (h.free fun why hw => by rw [show s.core = .bound true from hb] at hw; cases hw)

/-- The USB core goes on, past no wait for the work. -/
theorem goes (h : s.Polls) {c : CoreAt} {w : PanelWork} (hs : ∀ why, s.core ≠ .halt why .wait)
    (hc : ∀ why, c ≠ .halt why .wait) (hw : w.cancelling = s.panel.cancelling)
    (hparked : c.parked = true → s.core.parked = true ∧ w = s.panel)
    (hlives : c = .bound true → w.Lives) (q : UrbQueue) :
    Polls { s with core := c, panel := w, queue := q } where
  waits why hwait := absurd hwait (hc why)
  free _ := hw.trans (h.free hs)
  parked hp := by
    obtain ⟨hold, heq⟩ := hparked hp
    rw [heq]
    exact h.parked hold
  lives := hlives

end Polls

end Life

/-- Each step keeps what holds of the panel's work. -/
theorem LifeStep.polls {s t : Life} (hst : LifeStep s t) (hg : s.Guarded) (h : s.Polls) : t.Polls := by
  cases hst with
  -- The applications and the readers do not touch the panel's work.
  | thread | enter | load | leave | openFile | closeFile | openBegin | openFails | openDone | callBegin
  | callEnd | closeBegin | closeClear | closeDone => exact { h with }
  -- A run takes the pending work off the queue, and lives on as a run.
  | panelBegin hp hi =>
    exact h.work rfl (fun _ _ => rfl) (fun hidle => by simp [hidle.1] at hp)
      (fun _ _ => .inr (.inl rfl))
  | panelTest hc =>
    refine h.work rfl (fun hp _ => hp) (fun hidle => by simp [hidle.2] at hc) fun hb _ => ?_
    -- No call of the USB core is under way, so the card is not shut down.
    have hup : s.queue.chip.shutdown = false := hg.shutdown.trans (by rw [hb]; rfl)
    simp [PanelWork.Lives, hup]
  -- A run that goes on re-arms the timer.
  | panelRearm ht =>
    refine h.work rfl (fun hp hc => ?_) (fun hidle => by simp [hidle.2] at ht) fun _ hc => .inl ?_
    · simp [hp, hc]
    · simp [hc]
  -- On a card that is bound a run that ends has re-armed the work before.
  | panelEnd hl =>
    refine h.work rfl (fun hp _ => hp) (fun hidle => by simp [hidle.2] at hl) fun hb _ => ?_
    rcases h.lives hb with hp | hp | hp
    · exact .inl hp
    · simp [hl] at hp
    · simp [hl] at hp
  -- The probe arms the work at its end.
  | probed hc =>
    exact h.goes (c := .bound true) (w := { s.panel with pending := true }) (by simp [hc]) (by simp) rfl
      (by simp [CoreAt.parked]) (fun _ => .inl rfl) _
  | disconnect hc =>
    refine h.goes (fun why hw => ?_) (by simp) rfl (by simp [CoreAt.parked]) (by simp) _
    rcases hc with ⟨b, hc⟩ | hc <;> simp [hc] at hw
  | suspend hc =>
    exact h.goes (by simp [hc]) (by simp) rfl (by simp [CoreAt.parked]) (by simp) _
  | lockKill hc | lockPass hc | killed hc | cancelled hc =>
    exact h.goes (by simp [hc]) (by simp) rfl (by simp [CoreAt.parked]) (by simp) _
  -- A cancel takes the pending run off the queue before it waits for the one under way.
  | panelCancel hc =>
    exact ⟨fun _ _ => ⟨rfl, rfl⟩, fun hn => absurd rfl (hn _), fun hp => (by cases hp),
      fun hl => (by cases hl)⟩
  -- With the run under way over, the cancel returns: nothing is pending and nothing runs.
  | @panelStopped why hc hp =>
    have hwaits := h.waits why hc
    refine ⟨fun why' hw => ?_, fun _ => rfl, fun _ => ⟨hwaits.1, hp⟩, fun hl => ?_⟩
    · cases why <;> cases hw
    · cases why <;> cases hl
  | gone hc | resume hc | free hc =>
    exact h.goes (by simp [hc]) (by simp) rfl (fun _ => ⟨by rw [hc]; rfl, rfl⟩) (by simp) _
  -- A resume re-arms the work when it succeeds.
  | resumed hc ok =>
    refine h.goes (c := .bound ok) (w := { s.panel with pending := s.panel.pending || ok })
      (by simp [hc]) (by simp) rfl (by simp [CoreAt.parked]) (fun hb => ?_) _
    cases hb
    exact .inl (Bool.or_true _)

namespace Life

/-! ## What holds of the readers -/

/-- What holds of the readers of `chip->subs`. -/
structure Readers (s : Life) : Prop where
  rcu : s.rcu.Sound
  /-- A reader is where it has entered its section. -/
  place (r : Reader) : s.rcu.reading r = true → s.MayRead r
  opened (d : Dir) : s.call d = true → s.sub d = .opened
  published (d : Dir) : s.rcu.published d = true → s.sub d = .opened ∨ s.sub d = .closing
  unheld (d : Dir) : s.sub d = .closed ∨ s.sub d = .opening → ∀ r, s.rcu.held r d = false

/-- Nobody reads its substreams. -/
theorem Fresh.readers {s : Life} (h : s.Fresh) : s.Readers where
  rcu := by rw [h.rcu]; exact Rcu.sound_fresh
  place r hr := by simp [h.rcu, Rcu.fresh] at hr
  opened d hd := by simp [h.call d] at hd
  published d hp := by simp [h.rcu, Rcu.fresh] at hp
  unheld d _ r := by rw [h.rcu]; rfl

namespace Readers

variable {s : Life}

/-- A callback is one on an open substream. -/
theorem idle (h : s.Readers) {d : Dir} (hs : s.sub d ≠ .opened) : s.call d = false := by
  apply Bool.eq_false_iff.mpr
  exact fun hd => hs (h.opened d hd)

/-- A step that only moves readers from one place to another. -/
theorem moves (h : s.Readers) {q : UrbQueue} {c : CoreAt} {w : PanelWork}
    (hp : ∀ r, s.rcu.reading r = true → ({ s with queue := q, core := c, panel := w } : Life).MayRead r) :
    Readers { s with queue := q, core := c, panel := w } where
  rcu := h.rcu
  place := hp
  opened := h.opened
  published := h.published
  unheld := h.unheld

/-- The USB core goes on, and the works and the readers stay where they are. -/
theorem goes (h : s.Readers) {q : UrbQueue} (hu : q.urb = s.queue.urb)
    (hm : s.queue.holder = .clear → q.holder = .clear) {c : CoreAt}
    (hc : s.rcu.reading .core = true → s.core = .stopSubs → c = .stopSubs) (w : PanelWork) :
    Readers { s with queue := q, core := c, panel := w } := by
  apply h.moves
  intro r hr
  have hold := h.place r hr
  cases r with
  | urb d i => exact (congrFun (congrFun hu d) i).trans hold
  | work => exact hm hold
  | call => exact hold
  | core => exact hc hr hold

/-- A substream goes on between open and close, with its pointer. -/
theorem sub (h : s.Readers) {d : Dir} {a : SubAt} {g : Rcu Reader Dir} (hg : g.Sound)
    (hreading : g.reading = s.rcu.reading) (hheld : g.held = s.rcu.held)
    (hother : ∀ e, e ≠ d → g.published e = s.rcu.published e) (hcall : s.call d = false)
    (hpub : g.published d = true → a = .opened ∨ a = .closing)
    (hunheld : a = .closed ∨ a = .opening → ∀ r, g.held r d = false) :
    Readers { s with sub := Function.update s.sub d a, rcu := g } where
  rcu := hg
  -- No reader begins or ends a section here.
  place r hr := by
    have hplace := h.place r (hreading ▸ hr)
    cases r <;> exact hplace
  opened e he := by
    have hne : e ≠ d := by
      rintro rfl
      exact absurd he (by simp [hcall])
    exact (Function.update_of_ne hne ..).trans (h.opened e he)
  -- The pointer of this substream is published as the new step says, that of the others as before.
  published e he := by
    simp only [Function.update_apply]
    split
    · next hed => exact hpub (hed ▸ he)
    · next hne => exact h.published e ((hother e hne).symm.trans he)
  -- Only a substream that is closed or about to open must not be held, and this one says so itself.
  unheld e he := by
    simp only [Function.update_apply] at he
    split at he
    · next hed =>
      subst hed
      exact hunheld he
    · intro r
      exact (congrFun (congrFun hheld r) e).trans (h.unheld e he r)

/-- A substream that is closed or being opened is not published. -/
theorem unpublished (h : s.Readers) {d : Dir} (hs : s.sub d ≠ .opened) (hs' : s.sub d ≠ .closing) :
    s.rcu.published d = false := by
  apply Bool.eq_false_iff.mpr
  intro hp
  rcases h.published d hp with heq | heq
  · exact hs heq
  · exact hs' heq

/-- A step of a handler, of the stream's work, or of an application's section. -/
theorem thread (h : s.Readers) {q : UrbQueue} (ho : s.Owned q) : Readers { s with queue := q } := by
  refine h.moves (q := q) fun r hr => ?_
  cases r with
  | urb d i => exact ho.audio d i hr
  | work => exact ho.work hr
  | call | core => exact h.place _ hr

/-- `rcu_read_lock`, by a reader at its place. -/
theorem enter (h : s.Readers) {r : Reader} (hm : s.MayRead r) :
    Readers { s with rcu := s.rcu.enter r } := by
  refine { h with rcu := h.rcu.enter r, place := fun q hq => ?_ }
  rcases eq_or_ne q r with rfl | hne
  · cases q <;> exact hm
  · have hold := h.place q ((Function.update_of_ne hne ..).symm.trans hq)
    cases q <;> exact hold

/-- `rcu_dereference`: a reader takes the pointer that is published. -/
theorem load (h : s.Readers) {r : Reader} (hr : s.rcu.reading r = true) (d : Dir) :
    Readers { s with rcu := s.rcu.load r d } := by
  refine { h with rcu := h.rcu.load hr d, place := fun q hq => ?_, unheld := fun e he q => ?_ }
  · have hold := h.place q hq
    cases q <;> exact hold
  · have hpub : s.rcu.published e = false :=
      h.unpublished (fun hs => by simp [show s.sub e = _ from hs] at he)
        fun hs => by simp [show s.sub e = _ from hs] at he
    have hold := h.unheld e he q
    simp [Rcu.load, hold, hpub]

/-- `rcu_read_unlock`: the reader holds no pointer any more. -/
theorem leave (h : s.Readers) {r : Reader} : Readers { s with rcu := s.rcu.leave r } := by
  refine { h with rcu := h.rcu.leave r, place := fun q hq => ?_, unheld := fun e he q => ?_ }
  · rcases eq_or_ne q r with rfl | hne
    · simp [Rcu.leave] at hq
    · have hold := h.place q ((Function.update_of_ne hne ..).symm.trans hq)
      cases q <;> exact hold
  · simp only [Rcu.leave, Function.update_apply]
    split
    · rfl
    · exact h.unheld e he q

/-- A callback begins, on an open substream. -/
theorem callBegin (h : s.Readers) {d : Dir} (ho : s.sub d = .opened) :
    Readers { s with call := Function.update s.call d true } := by
  refine { h with place := fun r hr => ?_, opened := fun e he => ?_ }
  · have hold := h.place r hr
    cases r with
    | call => exact ⟨d, Function.update_self ..⟩
    | urb | work | core => exact hold
  · rcases eq_or_ne e d with rfl | hne
    · exact ho
    · exact h.opened e ((Function.update_of_ne hne ..).symm.trans he)

/-- A callback returns. If one reads, it is the other substream's. -/
theorem callEnd (h : s.Readers) {d : Dir}
    (hr : s.rcu.reading .call = true → s.call d.other = true) :
    Readers { s with call := Function.update s.call d false } := by
  refine { h with place := fun r hq => ?_, opened := fun e he => ?_ }
  · have hold := h.place r hq
    cases r with
    | call => exact ⟨d.other, (Function.update_of_ne d.other_ne ..).trans (hr hq)⟩
    | urb | work | core => exact hold
  · rcases eq_or_ne e d with rfl | hne
    · simp at he
    · exact h.opened e ((Function.update_of_ne hne ..).symm.trans he)

/-- A substream that is not published goes on, and its pointer is not touched. -/
theorem subIdle (h : s.Readers) {d : Dir} (hs : s.sub d ≠ .opened) (hs' : s.sub d ≠ .closing) {a : SubAt}
    (hunheld : ∀ r, s.rcu.held r d = false) :
    Readers { s with sub := Function.update s.sub d a } :=
  h.sub h.rcu rfl rfl (fun _ _ => rfl) (h.idle hs) (fun hp => by simp [h.unpublished hs hs'] at hp)
    fun _ => hunheld

end Readers

end Life

/-- Each step keeps what holds of the readers. -/
theorem LifeStep.readers {s t : Life} (hst : LifeStep s t) (h : s.Readers) : t.Readers := by
  cases hst with
  | thread _ ho => exact h.thread ho
  | enter hm => exact h.enter hm
  | load hr d => exact h.load hr d
  | leave => exact h.leave
  | panelBegin | panelTest | panelRearm | panelEnd => exact h.goes (by rfl) (by exact id) (fun _ => id) _
  | openFile | closeFile =>
    refine { h with place := fun r hr => ?_ }
    have hold := h.place r hr
    cases r <;> exact hold
  -- The callbacks of a substream, from open to close.
  | @openBegin d ho => exact h.subIdle (by simp [ho]) (by simp [ho]) (h.unheld d (.inl ho))
  | @openFails d ho => exact h.subIdle (by simp [ho]) (by simp [ho]) (h.unheld d (.inr ho))
  | @openDone d ho =>
    exact h.sub (h.rcu.publish d) rfl rfl (fun e he => Function.update_of_ne he ..)
      (h.idle (by simp [ho])) (fun _ => .inl rfl) (by simp)
  | callBegin ho => exact h.callBegin ho
  | callEnd _ hr => exact h.callEnd fun hq => hr (.inr hq)
  | closeBegin _ hc => exact h.sub h.rcu rfl rfl (fun _ _ => rfl) hc (fun _ => .inr rfl) (by simp)
  | @closeClear d ho =>
    exact h.sub (h.rcu.retract d) rfl rfl (fun e he => Function.update_of_ne he ..)
      (h.idle (by simp [ho])) (fun hp => by simp [Rcu.retract] at hp) (by simp)
  | @closeDone d ho hover =>
    -- `synchronize_rcu` is over: whoever held the pointer has left its section.
    have hpub := h.unpublished (d := d) (by simp [ho]) (by simp [ho])
    exact h.subIdle (by simp [ho]) (by simp [ho]) (h.rcu.unheld hpub hover)
  -- The USB core goes on. Only `stopSubs` reads on its behalf.
  | probed hc => exact h.goes (by rfl) (by exact id) (by simp [hc]) _
  | disconnect hc =>
    exact h.goes (by rfl) (by exact id) (fun _ hs => by rcases hc with ⟨b, hc⟩ | hc <;> simp [hc] at hs) _
  | suspend hc => exact h.goes (by rfl) (by exact id) (by simp [hc]) s.panel
  | lockKill hc hm => exact h.goes (by rfl) (by simp [hm]) (by simp [hc]) _
  | lockPass hc => exact h.goes (by rfl) (by exact id) (by simp [hc]) s.panel
  | killed hc hm => exact h.goes (by rfl) (by simp [hm]) (by simp [hc]) _
  | cancelled hc => exact h.goes (by rfl) (by exact id) (by simp [hc]) _
  | panelCancel hc | panelStopped hc => exact h.goes (by rfl) (by exact id) (by simp [hc]) _
  | gone _ hr => exact h.goes (by rfl) (by exact id) (fun hread => by simp [hr] at hread) s.panel
  | resume hc | free hc => exact h.goes (by rfl) (by exact id) (by simp [hc]) s.panel
  | resumed hc => exact h.goes (by rfl) (by exact id) (by simp [hc]) _

namespace Life

/-! ## Every run -/

/-- What holds of a card at all times. -/
structure Sound (s : Life) : Prop where
  guarded : s.Guarded
  polls : s.Polls
  readers : s.Readers
  /-- Frozen tasks are outside the driver. -/
  frozen : s.core.frozen = true → s.Freezable
  freed : s.core = .freed → s.files = 0 ∧ ∀ d, s.sub d = .closed

/-- The invariant holds of it. -/
theorem Fresh.sound {s : Life} (h : s.Fresh) : s.Sound where
  guarded := h.guarded
  polls := h.polls
  readers := h.readers
  frozen hf := by simp [h.core, CoreAt.frozen] at hf
  freed hf := by simp [h.core] at hf

end Life

/-- Each step keeps it. -/
theorem LifeStep.sound {s t : Life} (hst : LifeStep s t) (h : s.Sound) : t.Sound := by
  -- The parts on the guards, the panel's work and the readers are kept on their own.
  refine ⟨hst.guarded h.guarded, hst.polls h.guarded h.polls, hst.readers h.readers, ?_, ?_⟩
  -- While the processes are frozen none is in a call.
  · cases hst with
    | thread | enter | load | leave | openFile | closeFile | panelBegin | panelTest | panelRearm
    | panelEnd => exact h.frozen
    | openBegin _ _ hf | callBegin _ hf | closeBegin _ _ hf =>
      intro hfrozen
      simp [show s.core.frozen = true from hfrozen] at hf
    -- A substream on the way to open or closed is in a call, and no frozen process is.
    | @openFails d ho | @openDone d ho | @closeClear d ho | @closeDone d ho =>
      intro hfrozen
      have hd := (h.frozen hfrozen d).2
      simp [ho] at hd
    -- A call that ends was under way, and no frozen process has one.
    | @callEnd d hd =>
      intro hfrozen
      simp [(h.frozen hfrozen d).1] at hd
    | suspend _ hf => exact fun _ => hf
    | lockKill hc | lockPass hc | killed hc | cancelled hc | panelCancel hc =>
      exact fun hfrozen => h.frozen (by rw [hc]; exact hfrozen)
    | @panelStopped why hc =>
      intro hfrozen
      refine h.frozen ?_
      rw [hc]
      cases why <;> exact hfrozen
    | resume hc => exact fun _ => h.frozen (by rw [hc]; rfl)
    | probed | disconnect | gone | resumed | free => exact fun hfrozen => nomatch hfrozen
  -- A card that was freed had no file and no open substream, and nothing opens one again.
  · cases hst with
    | thread | enter | load | leave | panelBegin | panelTest | panelRearm | panelEnd | callBegin
    | callEnd => exact h.freed
    | openFile hc | openBegin _ hc => exact fun hf => absurd hf hc.2
    | closeFile hn =>
      intro hf
      simp [(h.freed hf).1] at hn
    | @openFails d ho | @openDone d ho | @closeBegin d ho | @closeClear d ho | @closeDone d ho =>
      intro hf
      simp [(h.freed hf).2 d] at ho
    | free _ hf hs => exact fun _ => ⟨hf, hs⟩
    | @panelStopped why => cases why <;> exact fun hf => nomatch hf
    | probed | disconnect | suspend | lockKill | lockPass | killed | cancelled | panelCancel | gone
    | resume | resumed => exact fun hf => nomatch hf

namespace Life

/-- The invariant holds in every state of a card. -/
theorem Reachable.sound {s : Life} (h : s.Reachable) : s.Sound := by
  obtain ⟨s₀, hfresh, hrun⟩ := h
  induction hrun with
  | refl => exact hfresh.sound
  | tail _ hst ih => exact hst.sound ih

/-- A card with two URBs a direction, just registered. -/
def registered : Life := { queue := { chip := { nurbs := 2, urbs_active := 2 } } }

/-- The probe of `registered` has returned. -/
def polled : Life := { registered with core := .bound true, panel := { pending := true } }

/-- The run to `polled`. -/
theorem reachable_polled : polled.Reachable := by
  refine ⟨registered, ?_, .single (.probed rfl)⟩
  exact ⟨⟨rfl, rfl, fun _ _ => rfl, by decide⟩, rfl, rfl, rfl, rfl, rfl, fun _ => rfl, fun _ => rfl, rfl⟩

/-- From `polled`, disconnect or suspend has nothing to wait for. -/
theorem stops_polled {s : Life} (why : Why) (hs : s.Reachable) (hc : s.core = .halt why .lock)
    (hq : s.queue.holder = .free ∧ s.queue.chip.streaming = false ∧ s.queue.active = false)
    (hp : s.panel.place = .idle) :
    Reachable
      { s with
        core := why.after
        queue := { s.queue with pending := false }
        panel := { s.panel with pending := false, cancelling := false } } := by
  obtain ⟨s₀, hfresh, hrun⟩ := hs
  exact ⟨s₀, hfresh, ((((hrun.tail (.lockPass hc hq.1 hq.2.1)).tail (.cancelled rfl hq.2.2)).tail
    (.panelCancel rfl)).tail (.panelStopped rfl hp))⟩

end Life

/-- Once close has returned, nobody holds the substream: not a URB's handler, not the work, not a
callback of the other direction, not disconnect. -/
theorem runtime_unheld {s : Life} (h : s.Reachable) {d : Dir} (hs : s.sub d = .closed) (r : Reader) :
    s.rcu.held r d = false := h.sound.readers.unheld d (.inl hs) r

/-- Disconnect has read the substream before its close cleared the pointer, and holds it until it leaves. -/
theorem runtime_unheld_disconnect :
    (((((Rcu.fresh.publish Dir.playback).enter Reader.core).load .core .playback).retract .playback).leave
      .core).held .core .playback = false := by
  -- A card whose substream was opened is disconnected, and the disconnect reads the pointer.
  obtain ⟨s₀, hfresh, hrun⟩ := Life.reachable_polled
  have hopen := (hrun.tail (.openBegin (d := .playback) rfl (by decide) rfl)).tail
    (.openDone (d := .playback) rfl)
  obtain ⟨s₁, hfresh, hrun⟩ := Life.stops_polled .disconnect
    ⟨s₀, hfresh, hopen.tail (.disconnect (.inl ⟨true, rfl⟩))⟩ rfl ⟨rfl, rfl, rfl⟩ rfl
  have hread := (hrun.tail (.enter (r := .core) rfl rfl)).tail
    (.load (r := .core) rfl .playback)
  -- The close clears the pointer while the disconnect still holds it, and waits for it to leave.
  have hclose := ((hread.tail (.closeBegin (d := .playback) rfl rfl rfl)).tail
    (.closeClear (d := .playback) rfl)).tail (.leave (r := .core) rfl)
  -- After the read section nobody has the substream that was retracted.
  have hover : Rcu.Over (((((Rcu.fresh.publish Dir.playback).enter Reader.core).load .core
      .playback).retract .playback).leave .core) .playback := by
    intro r
    cases r <;> rfl
  exact runtime_unheld
    ⟨s₁, hfresh, hclose.tail (.closeDone (d := .playback) rfl hover)⟩
    rfl .core

/-! ## A card in use -/

/-- A step of the threads that are in the driver: the card is not shut down, and the work is not cancelled. -/
structure QueueStep.Inner (q q' : UrbQueue) : Prop where
  step : QueueStep q q'
  shutdown : q'.chip.shutdown = q.chip.shutdown
  cancel : q.pending = true → q'.pending = false → q'.active ≠ q.active

/-- Steps of the handler of a URB, with no other thread's in between. -/
def HandlerRun (d : Dir) (rejected : Bool) : Chip × Bool × UrbAt → Chip × Bool × UrbAt → Prop :=
  Relation.ReflTransGen fun x y => HandlerStep d rejected x.1 x.2.1 x.2.2 y.1 y.2.1 y.2.2

namespace HandlerRun

variable {d : Dir} {rejected : Bool} {c : Chip}

/-- The handler of a good URB gets to the audio, and leaves the count if it is 0 or has stopped the session. -/
theorem heard (h : c.urb_err = 0 ∨ BF_URB_ERR_STOP ≤ c.urb_err) (p : Bool) :
    HandlerRun d rejected (c, p, .queued) (c, p, .audio) :=
  .tail (b := (c, p, .clear c.urb_err)) (.tail (b := (c, p, .good)) (.single (.good c p)) (.read c p))
    (.kept h c p)

/-- An IN URB whose audio is read cannot be resubmitted: the count goes up at once, and the work is queued. -/
theorem refused (h : c.streaming = true) (p : Bool) :
    HandlerRun .capture rejected (c, p, .audio) (babyfaceUrbResubmitFailed c, true, .idle) := by
  have hsubmit : HandlerRun .capture rejected (c, p, .audio) (c, p, .submit) :=
    .tail (b := (c, p, .resubmit)) (.single (.audio c p)) (.live h p)
  have hfailed : HandlerRun .capture rejected (c, p, .audio) (babyfaceUrbResubmitFailed c, p, .failedStop) :=
    .tail (b := (c, p, .failed)) (hsubmit.tail (.refused c p)) (.failed c p)
  exact hfailed.tail (.failedStop _ p)

end HandlerRun

namespace UrbQueue

/-- A URB that moves twice is where it moved last. -/
theorem moved_moved {s t : UrbQueue} {d : Dir} {i : ℕ} {a : UrbAt} (ht : t.urb = s.moved d i a) (b : UrbAt) :
    t.moved d i b = s.moved d i b := by
  funext e j
  by_cases h : e = d ∧ j = i
  · obtain ⟨rfl, rfl⟩ := h
    rw [t.moved_self, s.moved_self]
  · rw [t.moved_other b h, s.moved_other b h, ht, s.moved_other a h]

/-- The handler of a URB takes some steps while the other threads wait. -/
theorem handles {s : UrbQueue} {d : Dir} {i : ℕ} {c : Chip} {p : Bool} {a : UrbAt}
    (h : HandlerRun d (s.rejects d i) (s.chip, s.pending, s.urb d i) (c, p, a)) :
    Relation.ReflTransGen QueueStep.Inner s { s with chip := c, pending := p, urb := s.moved d i a } := by
  -- The induction is on the handler's run; the end state is generalized, as it names chip and URB at once.
  generalize hx : (c, p, a) = x at h
  induction h generalizing c p a with
  | refl =>
    obtain ⟨rfl, rfl, rfl⟩ : c = s.chip ∧ p = s.pending ∧ a = s.urb d i := by simpa using hx
    have hself : s.moved d i (s.urb d i) = s.urb := by simp [moved]
    rw [hself]
  | @tail y z _ hst ih =>
    subst hx
    obtain ⟨c', p', a'⟩ := y
    -- The last step of the handler is one step of the queue.
    dsimp only at hst
    have hq : QueueStep { s with chip := c', pending := p', urb := s.moved d i a' } _ :=
      .handler d i (c := c) (p := p) (a := a) (by
        show HandlerStep d _ c' p' (s.moved d i a' d i) c p a
        rw [s.moved_self]
        exact hst)
    rw [moved_moved (s := s) rfl a] at hq
    refine (ih rfl).tail ⟨hq, ?_, fun hp hnp => ?_⟩
    -- The handler leaves the shutdown flag, so the step is one of an inner run.
    · show c.shutdown = c'.shutdown
      rw [hst.handled.chip]
    -- Nor does it take pending work off the queue.
    · have hpend := hst.handled.pending hp
      simp [show p = false from hnp] at hpend

/-- The session of a start that gets through. -/
def started (q : UrbQueue) : UrbQueue :=
  { q with
    holder := .free
    chip := { q.chip with urb_err := 0, out_inflight := q.chip.urbs_active, streaming := true }
    urb := fun d i => if i < q.chip.urbs_active then .queued else q.urb d i }

/-- It has submitted the URBs in the slots below `k`. -/
def submitted (q : UrbQueue) (k : ℕ) : UrbQueue :=
  { q.started with
    holder := .start (.submit k)
    urb := fun d i =>
      if i < q.chip.urbs_active then if slot d i < k then .queued else .filled else q.urb d i }

/-- A start submits one URB after the other. -/
theorem submits (q : UrbQueue) {k : ℕ} (hk : k ≤ 2 * q.chip.urbs_active) :
    Relation.ReflTransGen QueueStep.Inner (q.submitted 0) (q.submitted k) := by
  -- By induction on the slots of the loop that submits; each slot is one URB of one direction.
  induction k with
  | zero => exact .refl
  | succ k ih =>
    refine (ih (by omega)).tail ?_
    obtain ⟨d, i, hslot, hi⟩ : ∃ d i, k = slot d i ∧ i < q.chip.urbs_active := by
      rcases Nat.even_or_odd' k with ⟨i, rfl | rfl⟩
      -- Even slots are those of the capture direction, odd ones those of playback.
      · exact ⟨.capture, i, rfl, by omega⟩
      · exact ⟨.playback, i, rfl, by omega⟩
    have hst : QueueStep (q.submitted k) _ := .startSubmit d i (by rw [hslot]; rfl) hi
    have hurb : (q.submitted k).moved d i .queued = (q.submitted (k + 1)).urb := by
      funext e j
      by_cases h : e = d ∧ j = i
      · obtain ⟨rfl, rfl⟩ := h
        rw [moved_self]
        show _ = if j < _ then if slot e j < k + 1 then _ else _ else _
        rw [if_pos hi, if_pos (by omega)]
      -- No other URB has this slot, so it was submitted before or still is not.
      · have hne : slot e j ≠ k := fun hs => h (slot_inj (hs.trans hslot))
        rw [moved_other _ _ h]
        show (if j < _ then if slot e j < k then _ else _ else _) = if j < _ then if slot e j < k + 1 then _ else _ else _
        have hiff : slot e j < k ↔ slot e j < k + 1 := by omega
        simp only [hiff]
    rw [hurb, ← hslot] at hst
    exact ⟨hst, rfl, fun hp hnp => absurd (hnp.symm.trans hp) Bool.false_ne_true⟩

/-- A start with no failed transfer brings up its session. -/
theorem starts {q : UrbQueue} (hm : q.holder = .free) (hd : q.chip.shutdown = false)
    (hs : q.chip.streaming = false) : Relation.ReflTransGen QueueStep.Inner q q.started := by
  have hinner {p p' : UrbQueue} (hst : QueueStep p p') (hd : p'.chip.shutdown = p.chip.shutdown)
      (hp : p'.pending = p.pending) : QueueStep.Inner p p' :=
    ⟨hst, hd, fun hpend hn => by simp [hpend, hn] at hp⟩
  -- The stages of `babyface_stream_start`, one after the other.
  have hbegin := Relation.ReflTransGen.single (hinner (.prepare hm hd hs) rfl rfl)
  have hfill := (hbegin.tail (hinner (.startWritten rfl) rfl rfl)).tail (hinner (.startFill rfl) rfl rfl)
  have hcount := (hfill.tail (hinner (.startCount rfl) rfl rfl)).tail (hinner (.startInflight rfl) rfl rfl)
  have hlive := hcount.tail (hinner (.startLive rfl) rfl rfl)
  have hsent := hlive.trans (q.submits le_rfl)
  have hdone := hsent.tail (hinner (.startDone rfl) rfl rfl)
  -- After the last slot every URB of the session is queued.
  have hurb : (q.submitted (2 * q.chip.urbs_active)).urb = q.started.urb := by
    funext d i
    show (if i < _ then if slot d i < _ then _ else _ else _) = if i < _ then _ else _
    split
    · next hi => rw [if_pos (slot_lt hi)]
    · rfl
  have hall : { q.submitted (2 * q.chip.urbs_active) with holder := .free } = q.started :=
    congrArg (fun u => { q.started with urb := u }) hurb
  rw [← hall]
  exact hdone

end UrbQueue

namespace Life

/-- While an application is in a callback and no reader is in its section, the threads in the driver may take
any of their steps. -/
theorem threads {s : Life} (hcall : ∃ d, s.call d = true) (hkill : s.core.kills = false)
    (hread : ∀ r, s.rcu.reading r = false) {q : UrbQueue}
    (hrun : Relation.ReflTransGen QueueStep.Inner s.queue q) :
    Relation.ReflTransGen LifeStep s { s with queue := q } := by
  induction hrun with
  | refl => exact .refl
  | @tail p q _ hst ih =>
    refine ih.tail (.thread (s := { s with queue := p }) hst.step ?_)
    exact ⟨hst.shutdown, fun h => hst.cancel h.1 h.2.1 h.2.2, fun _ => hcall, fun hk => by simp [hkill] at hk,
      fun d i hr => by simp [hread] at hr, fun hr => by simp [hread] at hr⟩

/-- A callback comes and goes, and the threads take their steps meanwhile. -/
theorem calls {s : Life} {d : Dir} (hopen : s.sub d = .opened) (hcall : s.call d = false)
    (hfrozen : s.core.frozen = false) (hkill : s.core.kills = false) (hread : ∀ r, s.rcu.reading r = false)
    {q : UrbQueue} (hrun : Relation.ReflTransGen QueueStep.Inner s.queue q) (hout : q.holder.isCall = false) :
    Relation.ReflTransGen LifeStep s { s with queue := q } := by
  have hbegin : LifeStep s _ := .callBegin hopen hfrozen
  have hin : ∃ e, Function.update s.call d true e = true := ⟨d, Function.update_self ..⟩
  have hrun' := threads (s := { s with call := Function.update s.call d true }) hin hkill hread hrun
  have hend := LifeStep.callEnd (s := { s with call := Function.update s.call d true, queue := q }) (d := d)
    (Function.update_self ..) (fun hor => by
      rcases hor with hc | hr
      · exact absurd (hout.symm.trans hc.1) Bool.false_ne_true
      · exact absurd ((hread .call).symm.trans hr) Bool.false_ne_true)
  have hback : Function.update (Function.update s.call d true) d false = s.call := by
    rw [Function.update_idem, ← hcall, Function.update_eq_self]
  dsimp only at hend
  rw [hback] at hend
  exact (hrun'.head hbegin).tail hend

/-- A substream is opened. -/
theorem opens {s : Life} {d : Dir} (hclosed : s.sub d = .closed) (hcore : s.core ≠ .gone ∧ s.core ≠ .freed)
    (hfrozen : s.core.frozen = false) :
    Relation.ReflTransGen LifeStep s
      { s with sub := Function.update s.sub d .opened, rcu := s.rcu.publish d } := by
  have hdone := LifeStep.openDone (s := { s with sub := Function.update s.sub d .opening }) (d := d)
    (Function.update_self ..)
  dsimp only at hdone
  rw [Function.update_idem] at hdone
  exact (Relation.ReflTransGen.single (.openBegin hclosed hcore hfrozen)).tail hdone

/-- A card in use. A session of two URBs a direction runs, the first IN URB of which could not be resubmitted;
the stream's work has the mutex for it, and is to read the count. The handler of the first OUT URB has the
playback substream, the panel's work is at its tick, and a file is open besides. -/
def busy : Life where
  queue :=
    { chip := { nurbs := 2, urbs_active := 2, urb_err := BF_URB_ERR_STOP, out_inflight := 2, streaming := true }
      active := true
      holder := .test
      urb := fun d i => if 2 ≤ i then .idle else if i = 1 then .queued else
        match d with
        | .capture => .idle
        | .playback => .audio }
  panel := { place := .tick }
  core := .bound true
  sub := Function.update (fun _ => .closed) .playback .opened
  files := 1
  rcu := ((Rcu.fresh.publish .playback).enter (.urb .playback 0)).load (.urb .playback 0) .playback

/-- The session of `busy` comes up, its URBs are handled, and the work gets the mutex. -/
theorem busy_threads : Relation.ReflTransGen QueueStep.Inner registered.queue busy.queue := by
  have hup := UrbQueue.starts (q := registered.queue) rfl rfl rfl
  -- The IN URB is good, and the USB core refuses it; the OUT URB is handled after it.
  have hin := UrbQueue.handles (s := registered.queue.started) (d := .capture) (i := 0)
    ((HandlerRun.heard (.inl rfl) _).trans (HandlerRun.refused rfl _))
  have hout := UrbQueue.handles (s := { registered.queue.started with
    chip := babyfaceUrbResubmitFailed registered.queue.started.chip
    pending := true
    urb := registered.queue.started.moved .capture 0 .idle }) (d := .playback) (i := 0)
    (HandlerRun.heard (.inr le_rfl) _)
  have hrun := hup.trans (hin.trans hout)
  have hinner {p p' : UrbQueue} (hst : QueueStep p p') (hd : p'.chip.shutdown = p.chip.shutdown)
      (ha : p'.active = p.active → p'.pending = p.pending) : QueueStep.Inner p p' :=
    ⟨hst, hd, fun hpend hn hact => Bool.false_ne_true (hn.symm.trans ((ha hact).trans hpend))⟩
  have hbegin := hrun.tail (hinner (.workBegin rfl rfl) rfl nofun)
  have hwork := (hbegin.tail (hinner (.workLock rfl rfl) rfl fun _ => rfl)).tail
    (hinner (.workTest rfl rfl) rfl fun _ => rfl)
  have hurb : ({ registered.queue.started with
      urb := registered.queue.started.moved .capture 0 .idle } : UrbQueue).moved .playback 0 .audio =
        busy.queue.urb := by
    funext d i
    match i with
    | 0 => cases d <;> rfl
    | 1 => cases d <;> rfl
    | i + 2 => cases d <;> rfl
  have hall := congrArg (fun u => { busy.queue with urb := u }) hurb
  dsimp only at hall
  show Relation.ReflTransGen QueueStep.Inner registered.queue { busy.queue with urb := busy.queue.urb }
  rw [← hall]
  exact hwork

/-- A run from the probe to `busy`. -/
theorem reachable_busy : busy.Reachable := by
  obtain ⟨s₀, hfresh, hrun⟩ := reachable_polled
  have htick := (hrun.tail (.panelBegin rfl rfl)).tail (.panelTest rfl)
  have hopen := (htick.tail (.openFile (by decide) rfl)).trans (opens (d := .playback) rfl (by decide) rfl)
  have hcall := hopen.trans (calls (d := .playback) rfl rfl rfl rfl (fun _ => rfl) busy_threads rfl)
  exact ⟨s₀, hfresh, (hcall.tail (.enter (r := .urb .playback 0) rfl rfl)).tail
    (.load (r := .urb .playback 0) rfl .playback)⟩

/-- The tasks of `busy` can be frozen. -/
theorem busy_freezable : busy.Freezable := fun d => ⟨rfl, by cases d <;> decide⟩

end Life

end BabyfacePro
