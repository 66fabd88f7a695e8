import BabyfacePro.Panel.Select

/-!
# The restore after a re-probe

`alsactl` restores "Front Panel Selection" right after a probe. On a unit that was probed before, the
put ignores it for 3 s from the start of the panel, so that the selection stays unknown. The controls
are shown before the panel starts, though: until then the put compares `jiffies` with a `panel_start`
that is still zero. `restore_ignored` says which puts this lets through, and `restore_taken` is one.
-/

namespace BabyfacePro

open Bus.M (get modify when throw)

/-! ## A put and its guard -/

/-- `bf_panel_select_put` from its guard on, which it reads before it takes `chip->mutex`. -/
def panelSelectRest (restore : Bool) (pair : Fin 3) (v : ℕ) : Usb ℕ := do
  let chip ← get
  let sel : ℤ := if v < 4 then v else -1
  if v > 4 then
    throw .einval
  else if restore && chip.reprobe then
    return 0
  else
    when (shownPair chip = some pair ∧ ¬ restore ∧ sel ≥ 0)
      (modify fun c => { c with panel_select_armed := true })
    if sel = chip.panel_sel pair then
      return 0
    else
      modify (cacheSel pair sel)
      when (shownPair chip = some pair) do
        modify bfPanelSelLoad
        when chip.panel_mix (modify bfPanelMixSeed)
      return 1

/-- The guard of `bf_panel_select_put`. -/
def selectRestore (k : Clock) (c : Chip) : Bool := k.timeIsAfterJiffies (c.panel_start + 3 * k.HZ)

/-- The put of a selection is the guard, and what comes after it. -/
theorem bfPanelSelectPut_eq (k : Clock) (pair : Fin 3) (v : ℕ) :
    bfPanelSelectPut k pair v =
      (do let chip ← get; panelSelectRest (selectRestore k chip) pair v) := rfl

/-- A put that is ignored, or that says what is known, changes nothing. -/
theorem panelSelectRest_ignored {restore : Bool} {pair : Fin 3} {v : ℕ} {w : World}
    (hsel : w.chip.panel_sel = fun _ => -1) (hreprobe : w.chip.reprobe = true)
    (h : restore = true ∨ 4 ≤ v) : (panelSelectRest restore pair v w).2 = w := by
  unfold panelSelectRest
  rw [Bus.M.bind_of_ok (Bus.M.get_run w), Bus.M.ite_run]
  by_cases hv : v > 4
  · rw [if_pos hv]
    rfl
  rw [if_neg hv, Bus.M.ite_run]
  cases restore with
  | true =>
    rw [if_pos (by simpa using hreprobe)]
    rfl
  | false =>
    have hfour : ¬ v < 4 := not_lt.mpr (h.resolve_left Bool.false_ne_true)
    rw [if_neg (by simp), if_neg hfour, hsel, decide_eq_false (by simp)]
    rfl

/-- A put of a selection that passes the guard is taken. -/
theorem panelSelectRest_taken {pair : Fin 3} {v : ℕ} {w : World} (hv : v < 4) :
    (panelSelectRest false pair v w).2.chip.panel_sel pair = v := by
  unfold panelSelectRest
  rw [Bus.M.bind_of_ok (Bus.M.get_run w), Bus.M.ite_run, if_neg (by omega), Bus.M.ite_run,
    if_neg (by simp), if_pos hv]
  -- Arming SELECT leaves the entries alone.
  have harm : ∀ b : Bool, ∃ w₁ : World, (when b (modify fun c : Chip =>
      { c with panel_select_armed := true }) : Usb Unit) w = (.ok (), w₁) ∧
        w₁.chip.panel_sel = w.chip.panel_sel := fun b => by
    cases b
    · exact ⟨w, rfl, rfl⟩
    · exact ⟨_, rfl, rfl⟩
  obtain ⟨w₁, hw₁, hsel⟩ := harm _
  rw [Bus.M.bind_of_ok hw₁, Bus.M.ite_run]
  by_cases hsame : (v : ℤ) = w.chip.panel_sel pair
  · rw [if_pos hsame]
    exact (congrFun hsel pair).trans hsame.symm
  · have hput : (cacheSel pair v w₁.chip).panel_sel pair = v := Function.update_self ..
    rw [if_neg hsame, Bus.M.bind_of_ok (Bus.M.modify_run _ _)]
    by_cases hshown : shownPair w.chip = some pair
    · rw [decide_eq_true hshown]
      cases w.chip.panel_mix <;> exact hput
    · rw [decide_eq_false hshown]
      exact hput

/-! ## A poll without a selection -/

/-- No selection is known. -/
def Chip.Unselected (c : Chip) : Prop := c.SelTracked ∧ c.panel_sel = fun _ => -1

/-- Another cache with the same selection. -/
theorem Chip.Unselected.congr {c d : Chip} (h : c.Unselected) (hd : d.sel = c.sel) :
    d.Unselected := by
  refine ⟨h.1.congr hd, ?_⟩
  simp only [Chip.sel, Prod.mk.injEq] at hd
  rw [hd.2.1, h.2]

/-- Nothing is targeted. -/
theorem Chip.Unselected.target {c : Chip} (h : c.Unselected) :
    c.panel_select_known = false ∧ c.panel_select = 3 := by
  have hknown : c.panel_select_known = false := by
    rw [← Bool.not_eq_true]
    intro hk
    obtain ⟨pair, -, hpos⟩ := h.1.known.mp hk
    have hentry : c.panel_sel pair = -1 := congrFun h.2 pair
    omega
  exact ⟨hknown, h.1.unknown hknown⟩

/-- SELECT steps no selection that is not known. -/
theorem tickSelect_unselected (st : Readback) :
    Bus.Returns Chip.Unselected (tickSelect st) fun _ => Chip.Unselected := by
  unfold tickSelect
  refine Bus.Returns.get.bind fun c => Bus.Returns.ite _ (fun hp => ?_) fun _ =>
    Bus.Returns.pure fun s hs => hs.1
  rintro w ⟨hw, rfl⟩
  simp only [Bool.and_eq_true] at hp
  exact absurd (hp.2.symm.trans hw.target.1) (by decide)

/-- With nothing selected the middle of the decoding selects nothing. -/
theorem decodeMid_unselected (p : Poll) :
    Bus.Returns Chip.Unselected (decodeMid p) fun _ => Chip.Unselected := by
  have h : WheelFrame (fun s t : Chip => s.Unselected → t.Unselected) fun _ => True :=
    ⟨Bus.Framing.keeps _, fun c n hc => hc.congr rfl, fun _ _ => trivial, fun _ _ => trivial⟩
  have hin := tickIn_frames (T := fun _ => True) (X := fun _ => False) h.framing
    (fun c sel hc => ⟨(selLoad_tracked (c := { c with panel_in := sel }) hc.1.range).congr rfl,
      hc.2⟩) p.st
  have hout := tickOut_frames (T := fun _ => True) (X := fun _ => False) h.framing (fun c _ hc => hc.congr rfl) p.st
  have hhold := tickHold_frames (T := fun _ => True) (X := fun _ => False) h.framing (fun c _ hc => hc.congr rfl) p.st
  exact hin.returns.bind fun _ => hout.returns.bind fun _ =>
    (tickSelect_unselected p.st).bind fun _ => hhold.returns

/-- A routine that leaves the fields of the selection alone. -/
theorem returns_unselected {m : Usb Unit} {v : Chip → Chip → Prop} {T : Reg × Datum → Prop}
    (h : Bus.Frames Xfer.write v T (fun _ => False) m)
    (hv : ∀ c d, v c d → d.sel = c.sel) :
    Bus.Returns Chip.Unselected m fun _ => Chip.Unselected := by
  intro w hw
  obtain ⟨a, w', hrun⟩ := h.run_ok w
  have hstate := h.state w
  rw [hrun] at hstate
  exact ⟨a, w', hrun, hw.congr (hv _ _ hstate)⟩

/-- The panel's part of a poll makes no selection known. -/
theorem babyfacePanelWork_unselected (p : Poll) (t : ℤ) :
    Bus.Returns Chip.Unselected (babyfacePanelWork p t) fun _ => Chip.Unselected := by
  -- The stages that take a selection from the panel need one that is known, and none is.
  have hdecode : Bus.Returns Chip.Unselected (decode p) fun _ => Chip.Unselected := by
    rw [decode_eq]
    refine (returns_unselected (decodeHead_spares p) fun c d h => (Prod.ext_iff.mp h).1).bind
      fun _ => (decodeMid_unselected p).bind fun _ => ?_
    exact (returns_unselected (tickSet_spares p.st) fun c d h => (Prod.ext_iff.mp h).1).bind
      fun _ => returns_unselected (decodeTail_spares p) fun c d h => (Prod.ext_iff.mp h).1
  -- The read of the panel, the first snapshot and the decoding each leave it unknown.
  have hpoll : Bus.Returns Chip.Unselected (bfPanelTick p) fun _ => Chip.Unselected := by
    have hsnap : ∀ c : Chip, c.Unselected → (snapshot p.st c).Unselected := fun c hc =>
      ⟨snapshot_tracked p.st hc.1, hc.2⟩
    have hF : Bus.Framing fun c d : Chip => c.Unselected → d.Unselected := Bus.Framing.keeps _
    have hrecv : Bus.Frames Xfer.write (fun c d : Chip => c.Unselected → d.Unselected) (fun _ => True)
        (fun _ => True) (Bus.M.recv .usb () : Usb Unit) := hF.recv trivial ()
    have hgot : Bus.Returns Chip.Unselected (Bus.M.attempt (Bus.M.recv .usb ()) : Usb Bool)
        fun _ => Chip.Unselected := Bus.Frames.returns (hF.attempt hrecv)
    refine hgot.bind fun got => Bus.Returns.when got fun _ => Bus.Returns.get.bind fun c => ?_
    refine Bus.Returns.ite _ (fun _ => hdecode.weaken (fun _ hs => hs.1) fun _ _ hs => hs) fun _ => ?_
    exact Bus.Returns.modify fun s hs => hsnap s hs.1
  unfold babyfacePanelWork
  refine Bus.Returns.get.bind fun c => ?_
  refine Bus.Returns.weaken (P := Chip.Unselected) ?_ (fun _ hs => hs.1) fun _ _ hs => hs
  refine Bus.Returns.when _ fun _ => hpoll.bind fun _ => ?_
  exact Bus.Returns.modify fun s hs => hs.congr rfl

/-- A poll leaves the guard of the puts alone. -/
theorem babyfacePanelWork_start (p : Poll) (t : ℤ) :
    Bus.Frames Xfer.write (fun c d : Chip => (d.reprobe, d.panel_start) = (c.reprobe, c.panel_start))
      (fun _ => True) (· = .fault) (babyfacePanelWork p t) := by
  have hR := Bus.Framing.view fun c : Chip => (c.reprobe, c.panel_start)
  have h : WheelFrame (fun c d : Chip => (d.reprobe, d.panel_start) = (c.reprobe, c.panel_start))
      fun _ => True := ⟨hR, fun _ _ => rfl, fun _ _ => trivial, fun _ _ => trivial⟩
  have hmix : MixXfers fun _ => True := ⟨trivial, trivial, trivial⟩
  -- No stage of a poll writes the guard or its time.
  have hdec : Bus.Frames Xfer.write
      (fun c d : Chip => (d.reprobe, d.panel_start) = (c.reprobe, c.panel_start)) (fun _ => True)
      (· = .fault) (decode p) := by
    unfold decode
    refine hR.bind (tickButton_frames h.framing (fun _ _ => rfl) _) fun _ => ?_
    refine hR.bind (tickWheel_frames h (fun _ _ => rfl) (fun _ _ _ _ => rfl) (fun _ _ _ _ _ _ => rfl)
      (fun _ _ => rfl) (fun _ _ _ _ _ => rfl) (fun _ _ => rfl) (fun _ _ => rfl) _ _) fun _ => ?_
    refine hR.bind (bfPanelOutResync_frames h (fun _ => rfl) _) fun _ => ?_
    refine hR.bind (tickIn_frames h.framing (fun _ _ => rfl) _) fun _ => ?_
    refine hR.bind (tickOut_frames h.framing (fun _ _ => rfl) _) fun _ => ?_
    refine hR.bind (tickSelect_frames (X := (· = .fault)) h.framing rfl (fun _ _ => rfl) (fun _ => rfl)
      (fun _ => rfl) _) fun _ => ?_
    refine hR.bind (tickHold_frames h.framing (fun _ _ => rfl) _) fun _ => ?_
    refine hR.bind (tickSet_frames h.framing (fun _ _ => rfl) (fun _ _ => rfl) (fun _ => trivial)
      (fun _ => trivial) _) fun _ => ?_
    refine hR.bind (tickDimPress_frames h.framing (fun _ _ => rfl) _) fun _ => ?_
    refine hR.bind (tickMix_frames h hmix (fun _ => rfl) (fun _ => rfl) (fun _ _ => rfl) _)
      fun _ => ?_
    refine hR.bind (tickFader_frames h.framing hmix (fun _ => rfl) (fun _ => rfl) _) fun _ => ?_
    exact hR.bind (tickDim_frames h.framing (fun _ _ => rfl) _) fun _ => hR.modify fun _ => rfl
  unfold babyfacePanelWork bfPanelTick
  refine hR.bind hR.get fun _ => hR.when _ fun _ => hR.bind ?_ fun _ => hR.modify fun _ => rfl
  refine hR.bind (hR.attempt (hR.recv (X := fun _ => True) trivial ())) fun _ =>
    hR.when _ fun _ => hR.bind hR.get fun c => hR.ite _ (fun _ => hdec) fun _ => ?_
  exact hR.modify fun _ => rfl

/-! ## The window after a re-probe -/

/-- `babyface_panel_start` up to its time stamp. -/
def panelStartLoad (c : Chip) : Chip :=
  { bfPanelSelLoad { c with panel_seen := false } with panel_select_armed := false }

/-- `babyface_panel_start` from its time stamp on. -/
def panelStartStamp (jiffies : ℤ) (c : Chip) : Chip :=
  { c with
    panel_start := jiffies
    panel_poll_t := 0
    panel_master_last := fun _ _ => 0xffff }

/-- The start of the panel loads, and then stamps the time. -/
theorem babyfacePanelStart_eq (jiffies : ℤ) (c : Chip) :
    babyfacePanelStart jiffies c = panelStartStamp jiffies (panelStartLoad c) := rfl

/-- How far `babyface_probe` has come since it registered the card. -/
inductive Phase where
  | registered
  | loaded
  /-- The panel has started. -/
  | started
  deriving DecidableEq, Repr

/-- A card that was registered, and the puts of "Front Panel Selection" that have read their guard and
not more. -/
structure Window where
  world : World
  /-- The tick count, without its wraps. -/
  now : ℤ
  phase : Phase := .registered
  puts : List (Bool × Fin 3 × ℕ) := []

/-- A new state of the card. -/
def Window.withChip (s : Window) (c : Chip) : Window := { s with world := { s.world with chip := c } }

/-- What may happen within 3 s of the registration. -/
inductive WindowAct where
  | tick (ticks : ℕ)
  | load
  | stamp
  /-- A put reads its guard. -/
  | arrive (pair : Fin 3) (v : ℕ)
  /-- The put of this place does the rest. -/
  | put (i : ℕ)
  | poll (p : Poll) (t : ℤ)

/-- When it may happen, for a card that was registered at the time `registered`. -/
def WindowAct.enabled (k : Clock) (registered : ℤ) (s : Window) : WindowAct → Prop
  | .tick _ => True
  | .load => s.phase = .registered
  | .stamp => s.phase = .loaded
  | .arrive _ _ => s.now < registered + 3 * k.HZ
  | .put i => i < s.puts.length
  | .poll _ _ => s.phase = .started

/-- What it does. -/
def Window.act (k : Clock) (s : Window) : WindowAct → Window
  | .tick ticks => { s with now := s.now + ticks }
  | .load => { s.withChip (panelStartLoad s.world.chip) with phase := .loaded }
  | .stamp => { s.withChip (panelStartStamp s.now s.world.chip) with phase := .started }
  | .arrive pair v =>
    { s with puts := s.puts ++ [(selectRestore { k with jiffies := s.now } s.world.chip, pair, v)] }
  | .put i =>
    match s.puts[i]? with
    | none => s
    | some (restore, pair, v) =>
      { s with
        world := (panelSelectRest restore pair v s.world).2
        puts := s.puts.eraseIdx i }
  | .poll p t => { s with world := (babyfacePanelWork p t s.world).2 }

/-- A step that meets a condition. -/
def WindowStep (k : Clock) (registered : ℤ) (ok : Window → WindowAct → Prop) (s s' : Window) : Prop :=
  ∃ a : WindowAct, a.enabled k registered s ∧ ok s a ∧ s' = s.act k a

/-- The runs of such steps. -/
abbrev WindowSteps (k : Clock) (registered : ℤ) (ok : Window → WindowAct → Prop) :
    Window → Window → Prop :=
  Relation.ReflTransGen (WindowStep k registered ok)

/-- A card that a re-probe has just registered, at the time `registered`. -/
structure Window.Reprobed (registered : ℤ) (s : Window) : Prop where
  run : ∃ st0 p usb, probeRegister st0 true ⟨probeChip p, [], [], usb⟩ = (.ok (), s.world)
  now : s.now = registered
  phase : s.phase = .registered
  puts : s.puts = []

/-- A put that sets a selection arrives once the panel has started, or while the tick count is before
the zero of its word plus 3 s. -/
def Guarded (k : Clock) (s : Window) : WindowAct → Prop
  | .arrive _ v =>
    s.phase = .started ∨ { k with jiffies := s.now }.timeIsAfterJiffies (3 * k.HZ) = true ∨ 4 ≤ v
  | _ => True

/-- The kernel's clocks: 32 or 64 bits, and a tick rate of which 3 s are less than half the range. -/
structure Clock.Real (k : Clock) : Prop where
  bits : k.bits = 32 ∨ k.bits = 64
  rate : 0 < k.HZ ∧ 3 * k.HZ < 2 ^ 31

/-- What holds in the window while its puts are guarded. -/
structure Window.Kept (k : Clock) (registered : ℤ) (s : Window) : Prop where
  sel : s.world.chip.panel_sel = fun _ => -1
  reprobe : s.world.chip.reprobe = true
  puts : ∀ put ∈ s.puts, put.1 = true ∨ 4 ≤ put.2.2
  now : registered ≤ s.now
  stamped : s.phase = .started →
    registered ≤ s.world.chip.panel_start ∧ s.world.chip.panel_start ≤ s.now
  unstamped : s.phase ≠ .started → s.world.chip.panel_start = 0
  tracked : s.phase ≠ .registered → s.world.chip.SelTracked

section Window

variable {k : Clock} {registered : ℤ} {s : Window}

/-- After a second probe the selection is the one that was kept. -/
theorem Window.Reprobed.kept (h : s.Reprobed registered) : s.Kept k registered := by
  obtain ⟨st0, p, usb, hrun⟩ := h.run
  obtain ⟨hchip, -⟩ := probeRegister_run_of hrun
  -- The default mixer does not touch the panel's fields.
  have hmixer : ∀ c : Chip, (cacheDefaultMixer c).panel_sel = c.panel_sel ∧
      (cacheDefaultMixer c).panel_start = c.panel_start := fun c =>
    List.foldlRecOn (motive := fun d : Chip => d.panel_sel = c.panel_sel ∧
      d.panel_start = c.panel_start) (List.finRange 6) _ ⟨rfl, rfl⟩ fun d hd out _ => hd
  -- Nor does what the probe reads back; the panel starts with no selection and no time.
  have hread : ∀ st : Option U8, (readChip st p).panel_sel = (fun _ => -1) ∧
      (readChip st p).panel_start = 0 := by
    intro st
    cases st <;> exact ⟨rfl, rfl⟩
  have hregistered : ∀ st : Option U8, (registeredChip st true p).panel_sel = (fun _ => -1) ∧
      (registeredChip st true p).panel_start = 0 := fun st =>
    ⟨(hmixer _).1.trans (hread st).1, (hmixer _).2.trans (hread st).2⟩
  have hsel : s.world.chip.quiet.panel_sel = fun _ => -1 := by
    rw [hchip]
    exact (hregistered _).1
  have hreprobe : s.world.chip.quiet.reprobe = true := by
    rw [hchip]
    rfl
  have hstart : s.world.chip.quiet.panel_start = 0 := by
    rw [hchip]
    exact (hregistered _).2
  -- No put is under way yet, and the panel has not started.
  refine ⟨hsel, hreprobe, ?_, h.now.ge, ?_, fun _ => hstart, fun hphase => absurd h.phase hphase⟩
  · intro put hput
    rw [h.puts] at hput
    cases hput
  · intro hphase
    rw [h.phase] at hphase
    cases hphase

/-- The guard holds for 3 s from the start of the panel. -/
theorem selectRestore_of_lt (hk : k.Real) {c : Chip} {now : ℤ} (hstart : c.panel_start ≤ now)
    (hnow : now < c.panel_start + 3 * k.HZ) :
    selectRestore { k with jiffies := now } c = true := by
  have hrate := hk.rate
  have hrange : (2 : ℤ) ^ 32 ≤ (2 ^ k.bits : ℕ) := by
    rcases hk.bits with hbits | hbits <;> rw [hbits] <;> norm_num
  have hbmod : (now - (c.panel_start + 3 * k.HZ)).bmod (2 ^ k.bits) =
      now - (c.panel_start + 3 * k.HZ) :=
    Int.bmod_eq_of_le (by omega) (by omega)
  simp only [selectRestore, Clock.timeIsAfterJiffies, hbmod, decide_eq_true_iff]
  omega

/-- Every step of the window keeps the selection unknown, when its puts are guarded. -/
theorem Window.Kept.act (hk : k.Real) (h : s.Kept k registered) {a : WindowAct}
    (ha : a.enabled k registered s) (hok : Guarded k s a) : (s.act k a).Kept k registered := by
  have hrange : ∀ pair, -1 ≤ s.world.chip.panel_sel pair ∧ s.world.chip.panel_sel pair ≤ 3 := by
    intro pair
    have hentry : s.world.chip.panel_sel pair = -1 := congrFun h.sel pair
    omega
  cases a with
  | tick ticks =>
    have hlater : s.now ≤ s.now + ticks := by omega
    exact ⟨h.sel, h.reprobe, h.puts, h.now.trans hlater,
      fun hphase => ⟨(h.stamped hphase).1, (h.stamped hphase).2.trans hlater⟩, h.unstamped, h.tracked⟩
  | load =>
    -- The panel loads its selection, which is still unknown for every pair.
    have hphase : s.phase = .registered := ha
    have hzero : s.world.chip.panel_start = 0 := h.unstamped (by rw [hphase]; decide)
    exact ⟨h.sel, h.reprobe, h.puts, h.now, nofun, fun _ => hzero,
      fun _ => (selLoad_tracked hrange).congr rfl⟩
  | stamp =>
    -- The start is stamped with the present, which lies after the registration.
    have hphase : s.phase = .loaded := ha
    refine ⟨h.sel, h.reprobe, h.puts, h.now, fun _ => ⟨h.now, le_rfl⟩, fun hne => absurd rfl hne,
      fun _ => ?_⟩
    exact (h.tracked (by rw [hphase]; decide)).congr rfl
  | arrive pair v =>
    refine ⟨h.sel, h.reprobe, fun put hput => ?_, h.now, h.stamped, h.unstamped, h.tracked⟩
    rcases List.mem_append.mp hput with hold | hnew
    · exact h.puts put hold
    -- The put that arrives is the new one.
    obtain rfl := List.mem_singleton.mp hnew
    by_cases hphase : s.phase = .started
    -- After the stamp it is within the time that the guard ignores.
    · obtain ⟨hfrom, hto⟩ := h.stamped hphase
      have hlt : s.now < registered + 3 * k.HZ := ha
      exact Or.inl (selectRestore_of_lt hk hto (by omega))
    · -- Before the stamp the guard measures from zero.
      have hzero : s.world.chip.panel_start + 3 * k.HZ = 3 * k.HZ := by
        rw [h.unstamped hphase, zero_add]
      rcases hok.resolve_left hphase with hbefore | hfour
      · left
        rw [selectRestore, hzero]
        exact hbefore
      · exact Or.inr hfour
  | put i =>
    -- A put that was let in is ignored, or names no selection.
    have hput : s.puts[i]? = some s.puts[i] := List.getElem?_eq_getElem ha
    have hguard : s.puts[i].1 = true ∨ 4 ≤ s.puts[i].2.2 := h.puts _ (List.getElem_mem ha)
    have hact : s.act k (.put i) = { s with puts := s.puts.eraseIdx i } := by
      simp only [Window.act, hput]
      rw [panelSelectRest_ignored h.sel h.reprobe hguard]
    rw [hact]
    exact ⟨h.sel, h.reprobe, fun put hmem => h.puts put (List.mem_of_mem_eraseIdx hmem), h.now,
      h.stamped, h.unstamped, h.tracked⟩
  | poll p t =>
    -- A poll reads no selection from the panel while none is known.
    have hphase : s.phase = .started := ha
    have hunselected : s.world.chip.Unselected :=
      ⟨h.tracked (by rw [hphase]; decide), h.sel⟩
    obtain ⟨_, w', hrun, hw'⟩ := babyfacePanelWork_unselected p t s.world hunselected
    -- Nor does it touch the guard.
    have hguard := (babyfacePanelWork_start p t).state s.world
    simp only [Window.act]
    rw [hrun] at hguard ⊢
    simp only [Prod.mk.injEq] at hguard
    obtain ⟨hreprobe, hstart⟩ := hguard
    refine ⟨hw'.2, hreprobe.trans h.reprobe, h.puts, h.now, fun _ => ?_, fun hne => absurd hphase hne,
      fun _ => hw'.1⟩
    rw [hstart]
    exact h.stamped hphase

/-- It stays so as long as every put is guarded. -/
theorem windowSteps_kept (hk : k.Real) {s₀ : Window} (h₀ : s₀.Reprobed registered)
    (h : WindowSteps k registered (Guarded k) s₀ s) : s.Kept k registered := by
  induction h with
  | refl => exact h₀.kept
  | tail _ hstep ih =>
    obtain ⟨a, ha, hok, rfl⟩ := hstep
    exact ih.act hk ha hok

/-- A put that is not guarded sets the selection. -/
theorem Window.Kept.taken (h : s.Kept k registered) {pair : Fin 3} {v : ℕ}
    (hput : ¬ Guarded k s (.arrive pair v)) :
    ((s.act k (.arrive pair v)).act k (.put s.puts.length)).world.chip.panel_sel pair = v := by
  obtain ⟨hphase, hput⟩ := not_or.mp hput
  obtain ⟨hafter, hv⟩ := not_or.mp hput
  have hzero : s.world.chip.panel_start + 3 * k.HZ = 3 * k.HZ := by
    rw [h.unstamped hphase, zero_add]
  have hguard : selectRestore { k with jiffies := s.now } s.world.chip = false := by
    rw [selectRestore, hzero]
    exact Bool.not_eq_true _ ▸ hafter
  have hlast : (s.act k (.arrive pair v)).puts[s.puts.length]? = some (false, pair, v) := by
    simp [Window.act, hguard]
  rw [Window.act.eq_def k (s.act k (.arrive pair v))]
  simp only [hlast]
  exact panelSelectRest_taken (by omega)

end Window

/-- After a re-probe no put of "Front Panel Selection" within 3 s makes a selection known, and SET and
the wheels reach no microphone, exactly as long as the puts that arrive before the panel has started do
so while the tick count is before the zero of its word plus 3 s: the first other put of a selection is
taken. -/
theorem restore_ignored {k : Clock} (hk : k.Real) {registered : ℤ} {s₀ : Window}
    (h₀ : s₀.Reprobed registered) {s : Window} (h : WindowSteps k registered (Guarded k) s₀ s) :
    (s.world.chip.panel_sel = fun _ => -1) ∧
      (s.phase = .started → s.world.chip.panel_select_known = false ∧ s.world.chip.panel_select = 3 ∧
        ∀ p t, ∃ w', babyfacePanelWork p t s.world = (.ok (), w') ∧
          w'.chip.preamp = s.world.chip.preamp ∧ w'.chip.gain = s.world.chip.gain) ∧
      ∀ pair v, ¬ Guarded k s (.arrive pair v) →
        ((s.act k (.arrive pair v)).act k (.put s.puts.length)).world.chip.panel_sel pair = v := by
  have hkept := windowSteps_kept hk h₀ h
  refine ⟨hkept.sel, fun hphase => ?_, fun pair v hput => hkept.taken hput⟩
  -- With no selection known a poll finds no target.
  have hunselected : s.world.chip.Unselected :=
    ⟨hkept.tracked (by rw [hphase]; decide), hkept.sel⟩
  obtain ⟨hknown, hselect⟩ := hunselected.target
  refine ⟨hknown, hselect, fun p t => ?_⟩
  obtain ⟨_, w', hrun, hw'⟩ := babyfacePanelWork_unselected p t s.world hunselected
  have huntargeted : ∀ {c : Chip}, c.Unselected → Untargeted c := by
    intro c hc pair _
    have hentry : c.panel_sel pair = -1 := congrFun hc.2 pair
    omega
  -- So neither 48V nor a gain changes, by the theorem on idle polls.
  obtain ⟨-, hpreamp, hgain, -⟩ :=
    IdlePoll.keeps ⟨huntargeted hunselected, huntargeted hw', p, t, hrun⟩ hunselected.1
  exact ⟨w', hrun, hpreamp, hgain⟩

/-- The clock of a 64-bit kernel with 250 ticks in a second. -/
def clock64 : Clock := ⟨64, 250, 0⟩

/-- Jiffies of 64 bits at 250 Hz are a clock. -/
theorem clock64_real : clock64.Real := ⟨Or.inr rfl, by decide⟩

/-- The tick count 20 s after the boot of a 64-bit kernel with 250 ticks in a second: it starts 5
minutes before 2 to the 32. -/
def bootTicks : ℤ := 4294897296

/-- The window of three seconds has not passed at its start. -/
theorem bootTicks_lt : bootTicks < bootTicks + 3 * clock64.HZ := by decide

/-- A card of the default parameters that a re-probe registers then. -/
theorem exists_reprobed : ∃ w, Window.Reprobed bootTicks { world := w, now := bootTicks } := by
  obtain ⟨_, hrun⟩ := eq_of_isOk
    (x := probeRegister 0 true ⟨probeChip {}, [], [], fun _ => true⟩) (by decide +kernel)
  exact ⟨_, ⟨0, {}, fun _ => true, hrun⟩, rfl, rfl, rfl⟩

/-- A restore that arrives once the panel has started is ignored. -/
theorem restore_ignored_started :
    ∃ s₀ : Window, s₀.Reprobed bootTicks ∧
      ((((s₀.act clock64 .load).act clock64 .stamp).act clock64 (.arrive 0 2)).act clock64
        (.put 0)).world.chip.panel_sel = fun _ => -1 := by
  obtain ⟨w, hw⟩ := exists_reprobed
  -- The restore arrives once the panel has loaded and stamped.
  generalize hs₀ : ({ world := w, now := bootTicks } : Window) = s₀ at hw
  have h₁ : WindowStep clock64 bootTicks (Guarded clock64) s₀ (s₀.act clock64 .load) :=
    ⟨.load, hw.phase, trivial, rfl⟩
  have h₂ : WindowStep clock64 bootTicks (Guarded clock64) (s₀.act clock64 .load)
      ((s₀.act clock64 .load).act clock64 .stamp) := ⟨.stamp, rfl, trivial, rfl⟩
  have hnow : s₀.now < bootTicks + 3 * clock64.HZ := by rw [hw.now]; exact bootTicks_lt
  -- It is within three seconds of the registration.
  have h₃ : WindowStep clock64 bootTicks (Guarded clock64)
      ((s₀.act clock64 .load).act clock64 .stamp)
      (((s₀.act clock64 .load).act clock64 .stamp).act clock64 (.arrive 0 2)) :=
    ⟨.arrive 0 2, hnow, Or.inl rfl, rfl⟩
  have hlt : 0 < (((s₀.act clock64 .load).act clock64 .stamp).act clock64 (.arrive 0 2)).puts.length := by
    simp [Window.act]
  exact ⟨s₀, hw, (restore_ignored clock64_real hw
    ((((Relation.ReflTransGen.single h₁).tail h₂).tail h₃).tail ⟨.put 0, hlt, trivial, rfl⟩)).1⟩

/-- A restore that arrives between the registration and the start of the panel is taken. -/
theorem restore_taken :
    ∃ (k : Clock) (registered : ℤ) (s₀ s : Window), k.Real ∧ s₀.Reprobed registered ∧
      WindowSteps k registered (fun _ _ => True) s₀ s ∧ s.world.chip.panel_sel ≠ fun _ => -1 := by
  obtain ⟨w, hw⟩ := exists_reprobed
  have hafter : ¬ { clock64 with jiffies := bootTicks }.timeIsAfterJiffies (3 * clock64.HZ) = true := by
    -- The tick count of the example is past the zero of its word plus three seconds.
    decide +kernel
  have hput : ¬ Guarded clock64 { world := w, now := bootTicks } (.arrive 0 2) := by
    rintro (hphase | hbefore | hfour)
    · cases hphase
    · exact hafter hbefore
    · omega
  have hkept : Window.Kept clock64 bootTicks { world := w, now := bootTicks } := hw.kept
  have htaken := hkept.taken hput
  -- The restore arrives before the panel has started, where the guard still measures from zero.
  have h₁ : WindowStep clock64 bootTicks (fun _ _ => True) { world := w, now := bootTicks }
      (Window.act clock64 { world := w, now := bootTicks } (.arrive 0 2)) :=
    ⟨.arrive 0 2, bootTicks_lt, trivial, rfl⟩
  refine ⟨clock64, bootTicks, _, _, clock64_real, hw,
    (Relation.ReflTransGen.single h₁).tail ⟨.put 0, Nat.lt_succ_self 0, trivial, rfl⟩, fun hsel => ?_⟩
  have hentry : _ = (-1 : ℤ) := congrFun hsel 0
  exact absurd (htaken.symm.trans hentry) (by decide)

end BabyfacePro
