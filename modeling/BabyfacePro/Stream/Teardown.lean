import BabyfacePro.Stream.Lifetime

/-!
# Disconnect and suspend come to an end

Disconnect and suspend wait four times: for the mutex, for the handler of each URB that they kill, for the
stream's work, and for the panel's. Whatever the other threads were at, each of these waits can end
without an application's entering or leaving the driver: the sections under the mutex come to their ends,
since a kill never waits for the work, and each handler returns (`halt_finishes`).
-/

namespace BabyfacePro

open Grace (Rcu)

/-! ## Where the handlers and the kills can be -/

/-- Only an OUT URB is counted out by `bf_out_lost`. -/
def UrbAt.losing : UrbAt → Bool
  | errorLost | lost => true
  | _ => false

/-- Only the handler of an OUT URB gets to a place that counts one out. -/
theorem HandlerStep.losing {d : Dir} {rejected : Bool} {c c' : Chip} {p p' : Bool} {a a' : UrbAt}
    (h : HandlerStep d rejected c p a c' p' a') (ha : a'.losing = true) : d = .playback := by
  cases h with
  | schedule | refused =>
    by_contra hd
    simp [hd, UrbAt.losing] at ha
  | count =>
    split at ha <;> cases ha
  | _ => cases ha

/-- What holds of the places of the handlers and of a kill. -/
structure Places (q : UrbQueue) : Prop where
  losing (d : Dir) (i : ℕ) : (q.urb d i).losing = true → d = .playback
  kill {who : Killer} {k : ℕ} : q.holder = .kill who k → k ≤ 2 * q.chip.nurbs

/-- Each step keeps the places. -/
theorem QueueStep.places {q q' : UrbQueue} (hst : QueueStep q q') (h : Places q) : Places q' := by
  -- A URB that has moved is losing only if it is an OUT URB.
  have hmoved {d : Dir} {i : ℕ} {a : UrbAt} (ha : a.losing = true → d = .playback) (e : Dir) (j : ℕ)
      (he : (q.moved d i a e j).losing = true) : e = .playback := by
    by_cases hej : e = d ∧ j = i
    · obtain ⟨rfl, rfl⟩ := hej
      rw [q.moved_self] at he
      exact ha he
    · rw [q.moved_other a hej] at he
      exact h.losing e j he
  cases hst with
  | handler d i hh =>
    refine ⟨hmoved hh.losing, fun hk => ?_⟩
    have hnurbs := h.kill hk
    rw [hh.handled.chip]
    exact hnurbs
  | unlink d i => exact ⟨hmoved (fun ha => nomatch ha), h.kill⟩
  | startSubmit d i => exact ⟨hmoved (fun ha => nomatch ha), fun hk => nomatch hk⟩
  | startFill =>
    refine ⟨fun d i hl => ?_, fun hk => nomatch hk⟩
    dsimp only at hl
    split at hl
    · cases hl
    · exact h.losing d i hl
  | killMark =>
    refine ⟨h.losing, fun hk => ?_⟩
    cases hk
    exact Nat.zero_le _
  | killUrb d i _ hi =>
    refine ⟨h.losing, fun hk => ?_⟩
    cases hk
    exact slot_lt hi
  | killDone | workStop => refine ⟨h.losing, fun hk => ?_⟩; dsimp only at hk; split at hk <;> cases hk
  | geometry | shutdown | workBegin | cancel => exact ⟨h.losing, h.kill⟩
  | prepare | startFails | startWritten | startCount | startInflight | startLive | startDone | stop
  | workLock | workTest | workLeave | workClear => exact ⟨h.losing, fun hk => nomatch hk⟩

/-- The places hold in every state of the queue. -/
theorem QueueReachable.places {q : UrbQueue} (h : QueueReachable q) : Places q := by
  obtain ⟨q₀, hfresh, hrun⟩ := h
  induction hrun with
  | refl =>
    exact ⟨fun d i hl => by simp [hfresh.urb, UrbAt.losing] at hl,
      fun hk => by simp [hfresh.holder] at hk⟩
  | tail _ hst ih => exact hst.places ih

namespace Life

/-! ## Steps of the threads in the driver -/

/-- A step with which no application enters or leaves the driver: no file and no substream is opened or
closed, and no callback begins or ends. -/
structure Inner (s t : Life) : Prop where
  step : LifeStep s t
  sub : t.sub = s.sub
  call : t.call = s.call
  files : t.files = s.files

/-- A run of such steps keeps the invariant. -/
theorem Sound.inner {s t : Life} (hs : s.Sound) (hrun : Relation.ReflTransGen Inner s t) : t.Sound := by
  induction hrun with
  | refl => exact hs
  | tail _ hst ih => exact hst.step.sound ih

/-- Such a run is a run of the card. -/
theorem Inner.steps {s t : Life} (hrun : Relation.ReflTransGen Inner s t) : Relation.ReflTransGen LifeStep s t :=
  hrun.lift id fun _ _ h => h.step

/-- What such a run leaves alone. -/
theorem Inner.kept {s t : Life} (hrun : Relation.ReflTransGen Inner s t) :
    t.sub = s.sub ∧ t.call = s.call ∧ t.files = s.files := by
  induction hrun with
  | refl => exact ⟨rfl, rfl, rfl⟩
  | tail _ hst ih => exact ⟨hst.sub.trans ih.1, hst.call.trans ih.2.1, hst.files.trans ih.2.2⟩

/-- A run of such steps, in which the USB core stays where it is. -/
structure Goes (s t : Life) : Prop where
  run : Relation.ReflTransGen Inner s t
  core : t.core = s.core
  nurbs : t.queue.chip.nurbs = s.queue.chip.nurbs

/-- The empty run. -/
theorem Goes.refl (s : Life) : Goes s s := ⟨.refl, rfl, rfl⟩

/-- One run after another. -/
theorem Goes.trans {s t u : Life} (h : Goes s t) (h' : Goes t u) : Goes s u where
  run := h.run.trans h'.run
  core := h'.core.trans h.core
  nurbs := h'.nurbs.trans h.nurbs

/-- The invariant after a run. -/
theorem Goes.sound {s t : Life} (h : Goes s t) (hs : s.Sound) : t.Sound := hs.inner h.run

/-- A reader leaves its section. -/
theorem Goes.leave {s : Life} {r : Reader} (h : s.rcu.reading r = true) :
    Goes s { s with rcu := s.rcu.leave r } := ⟨.single ⟨.leave h, rfl, rfl, rfl⟩, rfl, rfl⟩

/-- A step of the thread with the mutex, or of a handler, that no reader stands in the way of. -/
theorem Sound.goes {s : Life} (h : s.Sound) {q : UrbQueue} (hst : QueueStep s.queue q)
    (hchip : q.chip.shutdown = s.queue.chip.shutdown ∧ q.chip.nurbs = s.queue.chip.nurbs)
    (hpending : s.queue.pending = true → q.pending = true) (hmutex : s.queue.holder ≠ .free)
    (hkill : s.core.kills = true → q.holder ≠ .free)
    (haudio : ∀ d i, s.rcu.reading (.urb d i) = true → s.queue.urb d i = .audio → q.urb d i = .audio)
    (hwork : s.rcu.reading .work = true → s.queue.holder = .clear → q.holder = .clear) :
    Goes s { s with queue := q } where
  run := by
    refine .single ⟨.thread hst ⟨hchip.1, ?_, fun htakes => absurd htakes.1 hmutex, hkill, ?_, ?_⟩,
      rfl, rfl, rfl⟩
    · rintro ⟨hp, hnp, -⟩
      simp [hpending hp] at hnp
    · exact fun d i hr => haudio d i hr (h.readers.place (.urb d i) hr)
    · exact fun hr => hwork hr (h.readers.place .work hr)
  core := rfl
  nurbs := hchip.2

/-! ## A URB that is killed -/

/-- How far a handler is from its return. -/
def steps : UrbAt → ℕ
  | .idle | .filled => 0
  | .queued | .resubmit | .errorLost | .failedStop => 1
  | .audio | .errorStop | .failed => 2
  | .clear _ | .error | .lost => 3
  | .good | .submit => 4

/-- A handler reads the substreams while it is at the audio. -/
theorem Sound.unread {s : Life} (h : s.Sound) {d : Dir} {i : ℕ} {a : UrbAt}
    (hu : s.queue.urb d i = a) (ha : a ≠ .audio) : s.rcu.reading (.urb d i) = false := by
  apply Bool.eq_false_iff.mpr
  exact fun hr => ha (hu.symm.trans (h.readers.place (.urb d i) hr))

/-- A step of the handler of a URB while it is killed. -/
theorem Sound.handles {s : Life} (h : s.Sound) {d : Dir} {i : ℕ} {who : Killer}
    (hm : s.queue.holder = .kill who (slot d i)) {a b : UrbAt} (hu : s.queue.urb d i = a)
    (hread : s.rcu.reading (.urb d i) = false) {c : Chip} {p : Bool}
    (hh : HandlerStep d true s.queue.chip s.queue.pending a c p b) :
    ∃ t, Goes s t ∧ t.queue.urb d i = b ∧ t.queue.chip = c ∧ t.queue.holder = s.queue.holder := by
  have hchip := hh.handled.chip
  have hrejects : s.queue.rejects d i = true := by simp [UrbQueue.rejects, hm]
  rw [← hu, ← hrejects] at hh
  refine ⟨_, h.goes (.handler d i hh) (by rw [hchip]; exact ⟨rfl, rfl⟩) hh.handled.pending
    (by simp [hm]) (fun _ => by simp [hm]) (fun e j hr ha => ?_) (fun _ hc => by simp [hm] at hc),
    s.queue.moved_self d i b, rfl, rfl⟩
  refine (s.queue.moved_other b ?_).trans ha
  rintro ⟨rfl, rfl⟩
  simp [hread] at hr

/-- The loop of `babyface_urb_ok` ends. -/
theorem Sound.clears {s : Life} (h : s.Sound) {d : Dir} {i : ℕ} {who : Killer} {err : ℤ}
    (hm : s.queue.holder = .kill who (slot d i)) (hu : s.queue.urb d i = .clear err) :
    ∃ t, Goes s t ∧ t.queue.urb d i = .audio ∧ t.queue.holder = s.queue.holder := by
  -- A count that is the one just read is cleared, or left as it is.
  have hlast {t : Life} (ht : t.Sound) (hm : t.queue.holder = .kill who (slot d i)) {e : ℤ}
      (hu : t.queue.urb d i = .clear e) (he : e = 0 ∨ BF_URB_ERR_STOP ≤ e ∨ t.queue.chip.urb_err = e) :
      ∃ u, Goes t u ∧ u.queue.urb d i = .audio ∧ u.queue.holder = t.queue.holder := by
    have hread := ht.unread hu (by simp)
    by_cases hkept : e = 0 ∨ BF_URB_ERR_STOP ≤ e
    · obtain ⟨u, hg, ha, -, hmu⟩ := ht.handles hm hu hread (.kept hkept _ _)
      exact ⟨u, hg, ha, hmu⟩
    · obtain ⟨u, hg, ha, -, hmu⟩ :=
        ht.handles hm hu hread (.swapped (by omega) (by omega) _)
      exact ⟨u, hg, ha, hmu⟩
  by_cases he : err = 0 ∨ BF_URB_ERR_STOP ≤ err ∨ s.queue.chip.urb_err = err
  · exact hlast h hm hu he
  · have hlow : err ≠ 0 ∧ err < BF_URB_ERR_STOP := by omega
    have hne : s.queue.chip.urb_err ≠ err := by omega
    obtain ⟨t, hg, ha, hc, hmt⟩ := h.handles hm hu (h.unread hu (by simp)) (.again hlow hne _)
    obtain ⟨u, hg', ha', hmu⟩ := hlast (hg.sound h) (hmt.trans hm) ha (.inr (.inr (by rw [hc])))
    exact ⟨u, hg.trans hg', ha', hmu.trans hmt⟩

/-- The handler of a URB that is killed comes closer to its return. -/
theorem Sound.nearer {s : Life} (h : s.Sound) {d : Dir} {i : ℕ} {who : Killer}
    (hm : s.queue.holder = .kill who (slot d i)) (hd : (s.queue.urb d i).dead = false) :
    ∃ t, Goes s t ∧ steps (t.queue.urb d i) < steps (s.queue.urb d i) ∧
      t.queue.holder = s.queue.holder := by
  have hlive : s.queue.chip.streaming = false := by
    have hfits := h.guarded.queue.inv.fits
    rwa [hm] at hfits
  have hout (hl : (s.queue.urb d i).losing = true) : d = .playback :=
    h.guarded.queue.places.losing d i hl
  -- One step to a place that is nearer.
  have hone {a b : UrbAt} (hu : s.queue.urb d i = a) (ha : a ≠ .audio) {c : Chip} {p : Bool}
      (hh : HandlerStep d true s.queue.chip s.queue.pending a c p b) (hlt : steps b < steps a) :
      ∃ t, Goes s t ∧ steps (t.queue.urb d i) < steps (s.queue.urb d i) ∧
        t.queue.holder = s.queue.holder := by
    obtain ⟨t, hg, hb, -, hmt⟩ := h.handles hm hu (h.unread hu ha) hh
    exact ⟨t, hg, by rw [hb, hu]; exact hlt, hmt⟩
  cases hu : s.queue.urb d i with
  | idle | filled => simp [hu, UrbAt.dead] at hd
  | queued =>
    have hst : QueueStep s.queue _ := .unlink d i hm hu
    refine ⟨_, h.goes hst ⟨rfl, rfl⟩ id (by simp [hm]) (fun _ => by simp [hm]) (fun e j _ ha => ?_)
      (fun _ hc => by simp [hm] at hc), ?_, rfl⟩
    · refine (s.queue.moved_other .idle ?_).trans ha
      rintro ⟨rfl, rfl⟩
      simp [hu] at ha
    · show steps (s.queue.moved d i .idle d i) < _
      rw [s.queue.moved_self]
      decide
  | error => exact hu ▸ hone hu (by simp) (.count _ _) (by split <;> decide)
  | errorStop => exact hu ▸ hone hu (by simp) (.schedule _ _) (by split <;> decide)
  | errorLost => exact hu ▸ hone hu (by simp) (.errorLost (hout (by rw [hu]; rfl)) _ _) (by decide)
  | good => exact hu ▸ hone hu (by simp) (.read _ _) (by simp [steps])
  | clear err =>
    obtain ⟨t, hg, ha, hmt⟩ := h.clears hm hu
    exact ⟨t, hg, by rw [ha]; simp [steps], hmt⟩
  | audio =>
    -- A handler in its section leaves it first.
    have hlast {t : Life} (ht : t.Sound) (hg : Goes s t) (hq : t.queue = s.queue)
        (hread : t.rcu.reading (.urb d i) = false) :
        ∃ u, Goes s u ∧ steps (u.queue.urb d i) < steps .audio ∧ u.queue.holder = s.queue.holder := by
      obtain ⟨u, hg', hb, -, hmu⟩ :=
        ht.handles (hq ▸ hm) (by rw [hq, hu]) hread (.audio _ _)
      exact ⟨u, hg.trans hg', by rw [hb]; decide, hmu.trans (by rw [hq])⟩
    cases hread : s.rcu.reading (.urb d i) with
    | false => exact hlast h (.refl s) rfl hread
    | true =>
      have hg := Goes.leave hread
      exact hlast (hg.sound h) hg rfl (Function.update_self ..)
  | resubmit => exact hu ▸ hone hu (by simp) (.retire hlive _) (by decide)
  | submit => exact hu ▸ hone hu (by simp) (.refused _ _) (by split <;> decide)
  | lost => exact hu ▸ hone hu (by simp) (.lost (hout (by rw [hu]; rfl)) _ _) (by decide)
  | failed => exact hu ▸ hone hu (by simp) (.failed _ _) (by decide)
  | failedStop => exact hu ▸ hone hu (by simp) (.failedStop _ _) (by decide)

/-- A URB that is killed comes to its end. -/
theorem Sound.dies {s : Life} (h : s.Sound) {d : Dir} {i : ℕ} {who : Killer}
    (hm : s.queue.holder = .kill who (slot d i)) :
    ∃ t, Goes s t ∧ (t.queue.urb d i).dead = true ∧ t.queue.holder = s.queue.holder := by
  induction hn : steps (s.queue.urb d i) using Nat.strong_induction_on generalizing s with
  | _ n ih =>
    cases hd : (s.queue.urb d i).dead with
    | true => exact ⟨s, .refl s, hd, rfl⟩
    | false =>
      obtain ⟨t, hg, hlt, hmt⟩ := h.nearer hm hd
      obtain ⟨u, hg', hdu, hmu⟩ := ih _ (hn ▸ hlt) (hg.sound h) (hmt.trans hm) rfl
      exact ⟨u, hg.trans hg', hdu, hmu.trans hmt⟩

/-! ## The sections under the mutex -/

/-- A step of the thread with the mutex that leaves the URBs alone. -/
theorem Sound.section {s : Life} (h : s.Sound) {q : UrbQueue} (hst : QueueStep s.queue q)
    (hchip : q.chip.shutdown = s.queue.chip.shutdown ∧ q.chip.nurbs = s.queue.chip.nurbs)
    (hu : q.urb = s.queue.urb) (hp : q.pending = s.queue.pending) (hmutex : s.queue.holder ≠ .free)
    (hkill : s.core.kills = true → q.holder ≠ .free) (hclear : s.rcu.reading .work = false) :
    Goes s { s with queue := q } :=
  h.goes hst hchip (fun hpend => hp.trans hpend) hmutex hkill
    (fun d i _ ha => (congrFun (congrFun hu d) i).trans ha) (fun hr => by simp [hclear] at hr)

/-- The work reads the substreams after its kill. -/
theorem Sound.unread_work {s : Life} (h : s.Sound) (hm : s.queue.holder ≠ .clear) :
    s.rcu.reading .work = false := by
  apply Bool.eq_false_iff.mpr
  exact fun hr => hm (h.readers.place .work hr)

/-- A kill gets through its URBs. -/
theorem Sound.kills {s : Life} (h : s.Sound) {who : Killer} {k : ℕ}
    (hm : s.queue.holder = .kill who k) :
    ∃ t, Goes s t ∧ t.queue.holder = .kill who (2 * t.queue.chip.nurbs) := by
  -- The induction is on the slots that the kill has still to pass.
  induction hn : 2 * s.queue.chip.nurbs - k using Nat.strong_induction_on generalizing s k with
  | _ n ih =>
    have hle := h.guarded.queue.places.kill hm
    rcases hle.eq_or_lt with heq | hlt
    -- Past the last URB there is nothing left to wait for.
    · exact ⟨s, .refl s, heq ▸ hm⟩
    · -- The slot is that of a URB.
      obtain ⟨d, i, hk, hi⟩ : ∃ d i, k = slot d i ∧ i < s.queue.chip.nurbs := by
        rcases Nat.even_or_odd' k with ⟨i, rfl | rfl⟩
        · exact ⟨.capture, i, rfl, by omega⟩
        · exact ⟨.playback, i, rfl, by omega⟩
      subst hk
      -- The kill waits for this URB's handler, which ends on its own.
      obtain ⟨t, hg, hd, hmt⟩ := h.dies hm
      have ht := hg.sound h
      have hmt' := hmt.trans hm
      have hst : QueueStep t.queue _ := .killUrb d i hmt' (by rw [hg.nurbs]; exact hi) hd
      have hg' := ht.section hst ⟨rfl, rfl⟩ rfl rfl (by simp [hmt']) (fun _ => by simp)
        (ht.unread_work (by simp [hmt']))
      -- With this slot passed one less is left, so the rest of the kill goes through.
      have hlt' : 2 * t.queue.chip.nurbs - (slot d i + 1) < n := by rw [hg.nurbs]; omega
      obtain ⟨u, hg'', hmu⟩ := ih _ hlt' (hg'.sound ht) rfl rfl
      exact ⟨u, hg.trans (hg'.trans hg''), hmu⟩

/-- The mutex comes free, and the work whose section it was has returned. -/
def Frees (s : Life) : Prop :=
  ∃ t, Goes s t ∧ t.queue.holder = .free ∧ (s.queue.holder.isWork = true → t.queue.active = false)

/-- One step towards a free mutex. -/
theorem Frees.head {s t : Life} (hg : Goes s t)
    (hw : s.queue.holder.isWork = true → t.queue.holder.isWork = true ∨ t.queue.active = false ∧
      t.queue.holder = .free) (h : t.Frees) : s.Frees := by
  by_cases hfree : t.queue.active = false ∧ t.queue.holder = .free
  · exact ⟨t, hg, hfree.2, fun _ => hfree.1⟩
  · obtain ⟨u, hg', hm, ha⟩ := h
    exact ⟨u, hg.trans hg', hm, fun hs => ha ((hw hs).resolve_right hfree)⟩

/-- A step of the section under the mutex, on the way to its end. -/
theorem Sound.frees_step {s : Life} (h : s.Sound) (hk : s.core.kills = false) {q : UrbQueue}
    (hst : QueueStep s.queue q)
    (hchip : q.chip.shutdown = s.queue.chip.shutdown ∧ q.chip.nurbs = s.queue.chip.nurbs)
    (hu : q.urb = s.queue.urb) (hp : q.pending = s.queue.pending) (hmutex : s.queue.holder ≠ .free)
    (hclear : s.rcu.reading .work = false)
    (hw : s.queue.holder.isWork = true → q.holder.isWork = true ∨ q.active = false ∧ q.holder = .free)
    (hnext : ∀ t : Life, t.Sound → t.core.kills = false → t.queue = q → t.Frees) : s.Frees := by
  have hg := h.section hst hchip hu hp hmutex (fun hkill => by simp [hk] at hkill) hclear
  exact .head hg hw (hnext _ (hg.sound h) hk rfl)

/-- A mutex that is free. -/
theorem Frees.free {s : Life} (hm : s.queue.holder = .free) : s.Frees :=
  ⟨s, .refl s, hm, fun hw => by simp [hm, Holder.isWork] at hw⟩

/-- The end of the work, after its kill. -/
theorem Sound.frees_clear {s : Life} (h : s.Sound) (hk : s.core.kills = false)
    (hm : s.queue.holder = .clear) : s.Frees := by
  -- The work leaves its section, if it reads the substreams.
  have hlast {t : Life} (ht : t.Sound) (hg : Goes s t) (hq : t.queue = s.queue)
      (hread : t.rcu.reading .work = false) : s.Frees := by
    have hmt : t.queue.holder = .clear := hq ▸ hm
    refine .head hg (fun _ => .inl (by rw [hmt]; rfl)) ?_
    exact ht.frees_step (by rw [hg.core]; exact hk) (.workClear hmt) ⟨rfl, rfl⟩ rfl rfl (by simp [hmt])
      hread (fun _ => .inr ⟨rfl, rfl⟩) fun u _ _ hu => .free (by rw [hu])
  cases hread : s.rcu.reading .work with
  | false => exact hlast h (.refl s) rfl hread
  | true =>
    have hg := Goes.leave hread
    exact hlast (hg.sound h) hg rfl (by simp [Rcu.leave])

/-- A kill that is not the USB core's ends, and so does its section. -/
theorem Sound.frees_kill {s : Life} (h : s.Sound) (hk : s.core.kills = false) {who : Killer} {k : ℕ}
    (hm : s.queue.holder = .kill who k) : s.Frees := by
  obtain ⟨t, hg, hmt⟩ := h.kills hm
  have ht := hg.sound h
  have hkt : t.core.kills = false := by rw [hg.core]; exact hk
  -- Past its URBs the kill leaves the mutex, which goes to the work's end when it was the work's.
  refine .head hg (fun hw => .inl ?_) ?_
  · rw [hm] at hw
    rw [hmt]
    cases who with
    | work => rfl
    | start | other => cases hw
  -- The last step of the kill frees the mutex, or leaves it to the work that clears its count.
  · refine ht.frees_step hkt (.killDone hmt) ⟨rfl, rfl⟩ rfl rfl (by simp [hmt])
      (ht.unread_work (by simp [hmt])) (fun hw => .inl ?_) fun u hu hku hq => ?_
    · rw [hmt] at hw
      cases who with
      | work => rfl
      | start | other => cases hw
    · cases who with
      | work => exact hu.frees_clear hku (by rw [hq]; rfl)
      | start | other => exact .free (by rw [hq]; rfl)

/-- A kill that has not cleared the flag yet comes to its end. -/
theorem Sound.frees_mark {s : Life} (h : s.Sound) (hk : s.core.kills = false) {who : Killer}
    (hm : s.queue.holder = .mark who) : s.Frees := by
  refine h.frees_step hk (.killMark hm) ⟨rfl, rfl⟩ rfl rfl (by simp [hm])
    (h.unread_work (by simp [hm])) (fun hw => .inl ?_) fun t ht hkt hq => ht.frees_kill hkt (by rw [hq])
  rw [hm] at hw
  cases who with
  | work => rfl
  | start | other => cases hw

/-- A step of a start. -/
theorem Sound.frees_start_step {s : Life} (h : s.Sound) (hk : s.core.kills = false) {p : StartAt}
    (hm : s.queue.holder = .start p) {q : UrbQueue} (hst : QueueStep s.queue q)
    (hchip : q.chip.shutdown = s.queue.chip.shutdown ∧ q.chip.nurbs = s.queue.chip.nurbs)
    (hu : q.urb = s.queue.urb) (hp : q.pending = s.queue.pending)
    (hnext : ∀ t : Life, t.Sound → t.core.kills = false → t.queue = q → t.Frees) : s.Frees :=
  h.frees_step hk hst hchip hu hp (by simp [hm]) (h.unread_work (by simp [hm]))
    (fun hw => by simp [hm, Holder.isWork] at hw) hnext

/-- A start comes to its end: it fails. -/
theorem Sound.frees_start {s : Life} (h : s.Sound) (hk : s.core.kills = false) {p : StartAt}
    (hm : s.queue.holder = .start p) : s.Frees := by
  have hfails {t : Life} (ht : t.Sound) (hkt : t.core.kills = false) {p : StartAt}
      (hmt : t.queue.holder = .start p) (hp : p = .writes ∨ ∃ k, p = .submit k) : t.Frees := by
    refine ht.frees_start_step hkt hmt (.startFails ?_) ⟨rfl, rfl⟩ rfl rfl
      fun u hu hku hq => hu.frees_mark hku (by rw [hq])
    rcases hp with rfl | ⟨k, rfl⟩
    · exact .inl hmt
    · exact .inr ⟨k, hmt⟩
  have hlive {t : Life} (ht : t.Sound) (hkt : t.core.kills = false)
      (hmt : t.queue.holder = .start .live) : t.Frees :=
    ht.frees_start_step hkt hmt (.startLive hmt) ⟨rfl, rfl⟩ rfl rfl
      fun u hu hku hq => hfails hu hku (by rw [hq]) (.inr ⟨0, rfl⟩)
  have hinflight {t : Life} (ht : t.Sound) (hkt : t.core.kills = false)
      (hmt : t.queue.holder = .start .inflight) : t.Frees :=
    ht.frees_start_step hkt hmt (.startInflight hmt) ⟨rfl, rfl⟩ rfl rfl
      fun u hu hku hq => hlive hu hku (by rw [hq])
  have hcount {t : Life} (ht : t.Sound) (hkt : t.core.kills = false)
      (hmt : t.queue.holder = .start .count) : t.Frees :=
    ht.frees_start_step hkt hmt (.startCount hmt) ⟨rfl, rfl⟩ rfl rfl
      fun u hu hku hq => hinflight hu hku (by rw [hq])
  cases p with
  | writes => exact hfails h hk hm (.inl rfl)
  | fill =>
    have hinv := h.guarded.queue.inv
    have hlow : s.queue.chip.streaming = false := by
      have hfits := hinv.fits
      rwa [hm] at hfits
    -- No URB is with its handler while a start fills them.
    have hg := h.goes (.startFill hm) ⟨rfl, rfl⟩ id (by simp [hm]) (fun _ => by simp) (fun d i _ ha => by
      have hdead := hinv.dead hlow (fun k => by rw [hm]; rfl) d i
      simp [ha, UrbAt.dead] at hdead) (fun _ hc => by simp [hm] at hc)
    exact .head hg (fun hw => by simp [hm, Holder.isWork] at hw) (hcount (hg.sound h) hk rfl)
  | count => exact hcount h hk hm
  | inflight => exact hinflight h hk hm
  | live => exact hlive h hk hm
  | submit k => exact hfails h hk hm (.inr ⟨k, rfl⟩)

/-- The section of the work comes to its end, whatever it finds. -/
theorem Sound.frees_test {s : Life} (h : s.Sound) (hk : s.core.kills = false)
    (hm : s.queue.holder = .test) : s.Frees := by
  have hread := h.unread_work (by simp [hm])
  by_cases he : BF_URB_ERR_STOP ≤ s.queue.chip.urb_err
  · refine h.frees_step hk (.workStop hm he) ⟨rfl, rfl⟩ rfl rfl (by simp [hm]) hread
      (fun _ => .inl (by dsimp only; split <;> rfl)) fun t ht hkt hq => ?_
    have hmt : t.queue.holder = if s.queue.chip.streaming then .mark .work else .clear := by rw [hq]
    split at hmt
    · exact ht.frees_mark hkt hmt
    · exact ht.frees_clear hkt hmt
  · exact h.frees_step hk (.workLeave (.inr ⟨hm, by omega⟩)) ⟨rfl, rfl⟩ rfl rfl (by simp [hm]) hread
      (fun _ => .inr ⟨rfl, rfl⟩) fun t _ _ hq => .free (by rw [hq])

/-- So does a work that has not tested for a shutdown yet. -/
theorem Sound.frees_check {s : Life} (h : s.Sound) (hk : s.core.kills = false)
    (hm : s.queue.holder = .check) : s.Frees := by
  have hread := h.unread_work (by simp [hm])
  cases hd : s.queue.chip.shutdown with
  | true =>
    exact h.frees_step hk (.workLeave (.inl ⟨hm, hd⟩)) ⟨rfl, rfl⟩ rfl rfl (by simp [hm]) hread
      (fun _ => .inr ⟨rfl, rfl⟩) fun t _ _ hq => .free (by rw [hq])
  | false =>
    exact h.frees_step hk (.workTest hm hd) ⟨rfl, rfl⟩ rfl rfl (by simp [hm]) hread
      (fun _ => .inl rfl) fun t ht hkt hq => ht.frees_test hkt (by rw [hq])

/-- Whoever has the mutex comes to leave it, unless it is the USB core's thread. -/
theorem Sound.frees {s : Life} (h : s.Sound) (hk : s.core.kills = false) : s.Frees := by
  cases hm : s.queue.holder with
  | free => exact .free hm
  | start p => exact h.frees_start hk hm
  | mark who => exact h.frees_mark hk hm
  | kill who k => exact h.frees_kill hk hm
  | check => exact h.frees_check hk hm
  | test => exact h.frees_test hk hm
  | clear => exact h.frees_clear hk hm

/-! ## The calls of the USB core -/

/-- The USB core can get to `c`, and no application enters or leaves the driver on the way. -/
def Comes (s : Life) (c : CoreAt) : Prop := ∃ t, Relation.ReflTransGen Inner s t ∧ t.core = c

/-- A step on the way. -/
theorem Comes.head {s t : Life} {c : CoreAt} (hst : Inner s t) (h : t.Comes c) : s.Comes c := by
  obtain ⟨u, hrun, hc⟩ := h
  exact ⟨u, hrun.head hst, hc⟩

/-- Steps of the threads on the way. -/
theorem Goes.comes {s t : Life} {c : CoreAt} (hg : Goes s t) (h : t.Comes c) : s.Comes c := by
  obtain ⟨u, hrun, hc⟩ := h
  exact ⟨u, hg.run.trans hrun, hc⟩

/-- The wait for the panel's work. -/
theorem comes_of_wait {s : Life} {why : Why} (hc : s.core = .halt why .wait) : s.Comes why.after := by
  have hidle {t : Life} (ht : t.core = .halt why .wait) (hp : t.panel.place = .idle) :
      t.Comes why.after :=
    .head ⟨.panelStopped ht hp, rfl, rfl, rfl⟩ ⟨_, .refl, rfl⟩
  have hleave {t : Life} (ht : t.core = .halt why .wait) (hp : t.panel.place = .leave) :
      t.Comes why.after := .head ⟨.panelEnd hp, rfl, rfl, rfl⟩ (hidle ht rfl)
  have htick {t : Life} (ht : t.core = .halt why .wait) (hp : t.panel.place = .tick) :
      t.Comes why.after := .head ⟨.panelRearm hp, rfl, rfl, rfl⟩ (hleave ht rfl)
  cases hp : s.panel.place with
  | idle => exact hidle hc hp
  | leave => exact hleave hc hp
  | tick => exact htick hc hp
  | check =>
    refine .head ⟨.panelTest hp, rfl, rfl, rfl⟩ ?_
    cases hd : s.queue.chip.shutdown with
    | true => exact hleave hc rfl
    | false => exact htick hc rfl

/-- The wait for the stream's work, once the session is killed. -/
theorem Sound.comes_of_cancel {s : Life} (h : s.Sound) {why : Why} (hc : s.core = .halt why .cancel) :
    s.Comes why.after := by
  have hpanel {t : Life} (ht : t.core = .halt why .panel) : t.Comes why.after :=
    .head ⟨.panelCancel ht, rfl, rfl, rfl⟩ (comes_of_wait rfl)
  have hidle {t : Life} (ht : t.core = .halt why .cancel) (ha : t.queue.active = false) :
      t.Comes why.after := .head ⟨.cancelled ht ha, rfl, rfl, rfl⟩ (hpanel rfl)
  -- A work that has the mutex comes to its end.
  have hwork {t : Life} (ht : t.Sound) (hct : t.core = .halt why .cancel)
      (hw : t.queue.holder.isWork = true) : t.Comes why.after := by
    obtain ⟨u, hg, -, ha⟩ := ht.frees (by rw [hct]; rfl)
    exact hg.comes (hidle (hg.core.trans hct) (ha hw))
  cases ha : s.queue.active with
  | false => exact hidle hc ha
  | true =>
    by_cases hw : s.queue.holder.isWork = true
    · exact hwork h hc hw
    · have hsettled := h.guarded.settled (by rw [hc]; rfl)
      have hfree : s.queue.holder = .free := by
        rcases hsettled.2 with hm | hm | hm | hm
        · exact hm
        all_goals exact absurd (by rw [hm]; rfl) hw
      have hread := h.unread_work (by simp [hfree])
      have hst : LifeStep s { s with queue := { s.queue with holder := .check } } := by
        refine .thread (.workLock hfree ha) ⟨rfl, ?_, ?_, ?_, ?_, ?_⟩
        · rintro ⟨hp, hnp, -⟩
          exact absurd (hp.symm.trans hnp) (by simp)
        · rintro ⟨-, hcall | hn⟩
          · cases hcall
          · exact absurd rfl hn
        · exact fun _ => by simp
        · exact fun d i hr => h.readers.place (.urb d i) hr
        · exact fun hr => by simp [hread] at hr
      exact .head ⟨hst, rfl, rfl, rfl⟩ (hwork (hst.sound h) hc rfl)

/-- The kill of the USB core's thread. -/
theorem Sound.comes_of_kill {s : Life} (h : s.Sound) {why : Why} (hc : s.core = .halt why .kill) :
    s.Comes why.after := by
  have hkill {t : Life} (ht : t.Sound) (hct : t.core = .halt why .kill) {k : ℕ}
      (hm : t.queue.holder = .kill .other k) : t.Comes why.after := by
    obtain ⟨u, hg, hmu⟩ := ht.kills hm
    have hst := LifeStep.killed (hg.core.trans hct) hmu
    exact hg.comes (.head ⟨hst, rfl, rfl, rfl⟩ ((hst.sound (hg.sound ht)).comes_of_cancel rfl))
  rcases h.guarded.kill (by rw [hc]; rfl) with hm | ⟨k, hm⟩
  · have hg := h.section (.killMark hm) ⟨rfl, rfl⟩ rfl rfl (by simp [hm]) (fun _ => by simp)
      (h.unread_work (by simp [hm]))
    exact hg.comes (hkill (hg.sound h) hc rfl)
  · exact hkill h hc hm

/-- The wait for the mutex. -/
theorem Sound.comes_of_lock {s : Life} (h : s.Sound) {why : Why} (hc : s.core = .halt why .lock) :
    s.Comes why.after := by
  obtain ⟨t, hg, hm, -⟩ := h.frees (by rw [hc]; rfl)
  have ht := hg.sound h
  have hct := hg.core.trans hc
  apply hg.comes
  cases hs : t.queue.chip.streaming with
  | true =>
    have hst := LifeStep.lockKill hct hm hs
    exact .head ⟨hst, rfl, rfl, rfl⟩ ((hst.sound ht).comes_of_kill rfl)
  | false =>
    have hst := LifeStep.lockPass hct hm hs
    exact .head ⟨hst, rfl, rfl, rfl⟩ ((hst.sound ht).comes_of_cancel rfl)

/-- From any place of a disconnect or a suspend the works come to be stopped. -/
theorem Sound.comes {s : Life} (h : s.Sound) {why : Why} {p : HaltAt} (hc : s.core = .halt why p) :
    s.Comes why.after := by
  cases p with
  | lock => exact h.comes_of_lock hc
  | kill => exact h.comes_of_kill hc
  | cancel => exact h.comes_of_cancel hc
  | panel =>
    have hst := LifeStep.panelCancel hc
    exact .head ⟨hst, rfl, rfl, rfl⟩ (comes_of_wait rfl)
  | wait => exact comes_of_wait hc

/-- The rest of disconnect. -/
theorem comes_of_stopSubs {s : Life} (hc : s.core = .stopSubs) : s.Comes .gone := by
  have hlast {t : Life} (ht : t.core = .stopSubs) (hr : t.rcu.reading .core = false) :
      t.Comes .gone := .head ⟨.gone ht hr, rfl, rfl, rfl⟩ ⟨_, .refl, rfl⟩
  cases hr : s.rcu.reading .core with
  | false => exact hlast hc hr
  | true =>
    exact .head ⟨.leave hr, rfl, rfl, rfl⟩ (hlast hc (by simp [Rcu.leave]))

end Life

/-- Wherever disconnect or suspend is, and whatever the other threads are at, it can come to its end
without an application's entering or leaving the driver. -/
theorem halt_finishes {s : Life} (h : s.Reachable) {why : Why} {p : HaltAt}
    (hc : s.core = .halt why p) :
    s.Comes (match why with
      | .disconnect => .gone
      | .suspend => .suspended) := by
  obtain ⟨t, hrun, hct⟩ := h.sound.comes hc
  cases why with
  | suspend => exact ⟨t, hrun, hct⟩
  | disconnect =>
    obtain ⟨u, hrun', hcu⟩ := Life.comes_of_stopSubs hct
    exact ⟨u, hrun.trans hrun', hcu⟩

/-- The card of `busy` is unplugged, and goes; the same card is suspended, and sleeps. -/
theorem halt_finishes_busy :
    Life.Comes
      { Life.busy with
        core := .halt .disconnect .lock
        queue := { Life.busy.queue with chip := { Life.busy.queue.chip with shutdown := true } } } .gone ∧
      Life.Comes { Life.busy with core := .halt .suspend .lock } .suspended := by
  obtain ⟨s₀, hfresh, hrun⟩ := Life.reachable_busy
  exact ⟨halt_finishes ⟨s₀, hfresh, hrun.tail (.disconnect (.inl ⟨true, rfl⟩))⟩ rfl,
    halt_finishes ⟨s₀, hfresh, hrun.tail (.suspend rfl Life.busy_freezable)⟩ rfl⟩

end BabyfacePro
