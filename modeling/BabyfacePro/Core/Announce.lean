import BabyfacePro.Core.Failure
import BabyfacePro.Core.Preamp

/-!
# Notifications of indirect changes

A put, a poll or a start of the panel may change what other controls read as. A control that reads
otherwise after an operation has to be notified within it, or a mixer goes on showing the old value.
`Announces` is that, for a routine and whatever becomes of its transfers. The one place without a
notification is the first snapshot after a start of the panel (`announced_iff`).
-/

namespace BabyfacePro

open Bus.M (get modify notify when settle)

/-- From the world `w` to `w'`, every control but `own` that reads otherwise was notified. -/
def Announces (own : Option Ctl) (w w' : World) : Prop :=
  ∃ ns, w'.notes = w.notes ++ ns ∧ ∀ g, own ≠ some g → bfGet w'.chip g ≠ bfGet w.chip g → g ∈ ns

/-- What is announced by two parts is announced by both of them together. -/
theorem announces_linking (own : Option Ctl) : Bus.Linking (Announces own) where
  refl w := ⟨[], (List.append_nil _).symm, fun g _ hne => absurd rfl hne⟩
  trans := by
    intro w w₁ w₂ h h'
    obtain ⟨ns, hn, hg⟩ := h
    obtain ⟨ns', hn', hg'⟩ := h'
    refine ⟨ns ++ ns', by rw [hn', hn, List.append_assoc], fun g ho hne => List.mem_append.mpr ?_⟩
    -- The control changed in the first part or in the second.
    by_cases hmid : bfGet w₁.chip g = bfGet w.chip g
    · exact .inr (hg' g ho (by rwa [hmid]))
    · exact .inl (hg g ho hmid)

/-- What was notified is at the end of the list. -/
theorem Announces.mem_drop {own : Option Ctl} {w w' : World} (h : Announces own w w') {g : Ctl}
    (ho : own ≠ some g) (hne : bfGet w'.chip g ≠ bfGet w.chip g) : g ∈ w'.notes.drop w.notes.length := by
  obtain ⟨ns, hn, hg⟩ := h
  rw [hn, List.drop_left]
  exact hg g ho hne

/-! ## The primitives -/

section Primitives

variable {own : Option Ctl}

/-- A change that no control shows. -/
theorem modify_announces {f : Chip → Chip} (hf : ∀ c g, bfGet (f c) g = bfGet c g) :
    Bus.Relates (Announces own) (modify f : Usb Unit) := fun w =>
  ⟨[], (List.append_nil _).symm, fun g _ hne => absurd (hf w.chip g) hne⟩

/-- A change that one control shows, and its notification. -/
theorem announce_announces {f : Chip → Chip} {ctl : Ctl}
    (hf : ∀ c g, g ≠ ctl → bfGet (f c) g = bfGet c g) :
    Bus.Relates (Announces own) (announce f ctl) := fun w =>
  ⟨[ctl], rfl, fun g _ hne => List.mem_singleton.mpr (by
    by_contra hg
    exact hne (hf w.chip g hg))⟩

/-- A transfer changes no reading. -/
theorem send_announces (e : Errno) (x : Xfer) :
    Bus.Relates (Announces own) (Bus.M.send e x : Usb Unit) := by
  intro w
  have hsame : (Bus.M.send e x w : Except Errno Unit × World).2.chip = w.chip ∧
      (Bus.M.send e x w : Except Errno Unit × World).2.notes = w.notes := by
    cases hu : w.usb 0 <;> simp [Bus.M.send, hu]
  exact ⟨[], by rw [hsame.2, List.append_nil], fun g _ hne => absurd (by rw [hsame.1]) hne⟩

/-- A write whose error is dropped changes none. -/
theorem post_announces (req : ℕ) (val : U16) (idx : ℕ) :
    Bus.Relates (Announces own) (post req val idx) :=
  (announces_linking own).ignore (send_announces _ _)

/-- The flag count is no reading. -/
theorem nextFlag_announces : Bus.Relates (Announces own) nextFlag := by
  have hR := announces_linking own
  have hstep : ∀ w : World, Bus.Relates (Announces own) (do
      modify fun c => { c with flag_cnt := c.flag_cnt + 1 }
      return bfFlagCycle w.chip.flag_cnt : Usb ℕ) := fun w =>
    hR.bind (modify_announces fun c g => by cases g <;> rfl) fun _ => hR.pure _
  exact hR.get fun w => hstep w w

end Primitives

/-! ## What the changes of the cache show -/

/-- A master in the cache is the reading of its own control only. -/
theorem bfGet_cacheMaster {out : Out} {l r : U16} (c : Chip) {g : Ctl} (hg : g ≠ .master out) :
    bfGet (cacheMaster out l r c) g = bfGet c g := by
  cases g with
  | master out' =>
    have hne : out' ≠ out := fun he => hg (by rw [he])
    simp only [bfGet, cacheMaster, Function.update_of_ne hne]
  | _ => rfl

/-- So is a crosspoint. -/
theorem bfGet_cacheXpoint {out : Out} {src : Src} {l r : U16} (c : Chip) {g : Ctl}
    (hg : g ≠ .xpoint out src) : bfGet (cacheXpoint out src l r c) g = bfGet c g := by
  cases g with
  | xpoint out' src' =>
    simp only [bfGet, cacheXpoint]
    by_cases ho : out' = out
    · subst ho
      have hne : src' ≠ src := fun he => hg (by rw [he])
      rw [Function.update_self, Function.update_of_ne hne]
    · rw [Function.update_of_ne ho]
  | _ => rfl

/-- So is a gain. -/
theorem bfGet_gain {mic : Mic} {v : U8} (c : Chip) {g : Ctl} (hg : g ≠ .gain mic) :
    bfGet { c with gain := Function.update c.gain mic v } g = bfGet c g := by
  cases g with
  | gain mic' =>
    have hne : mic' ≠ mic := fun he => hg (by rw [he])
    simp only [bfGet, Function.update_of_ne hne]
  | _ => rfl

/-- So is a selection of the panel. -/
theorem bfGet_sel {pair : Fin 3} {sel : ℤ} (c : Chip) {g : Ctl} (hg : g ≠ .panelSelect pair) :
    bfGet (cacheSel pair sel c) g = bfGet c g := by
  cases g with
  | panelSelect pair' =>
    have hne : pair' ≠ pair := fun he => hg (by rw [he])
    simp only [bfGet, cacheSel, Function.update_of_ne hne]
  | _ => rfl

/-- A change of the preamp byte shows in the switches whose bits are among those that changed. -/
theorem bfGet_preamp {c : Chip} {v bits : U16} (h : (v ^^^ c.preamp) &&& ~~~bits = 0) {g : Ctl}
    (hphantom : ∀ mic, g = .phantom mic → bits &&& phantomBit mic = 0)
    (hpad : ∀ mic, g = .pad mic → bits &&& padBit mic = 0) :
    bfGet { c with preamp := v } g = bfGet c g := by
  cases g with
  | phantom mic => simp only [bfGet, and_eq_of_frame h (hphantom mic rfl)]
  | pad mic => simp only [bfGet, and_eq_of_frame h (hpad mic rfl)]
  | _ => rfl

/-! ## Puts -/

/-- One output's loopback is on at most. -/
def Chip.OneLoopback (c : Chip) : Prop := ∀ a b, c.loopback a = true → c.loopback b = true → a = b

/-- The output whose loopback is on is the one that a put finds. -/
theorem loopbackPrev_eq {c : Chip} (h : c.OneLoopback) {out : Out} (ho : c.loopback out = true) :
    loopbackPrev c = some out := by
  have hfold : ∀ out : Out, (List.finRange 6).foldl
      (fun prev i => if (decide (i = out)) = true then some i else prev) none = some out := by decide
  have hmap : c.loopback = fun i => decide (i = out) := by
    funext i
    by_cases hi : i = out
    · rw [hi, ho, decide_eq_true rfl]
    · rw [decide_eq_false hi, ← Bool.not_eq_true]
      exact fun ht => hi (h i out ht ho)
  unfold loopbackPrev
  rw [hmap]
  exact hfold out

/-- A loopback that a put turns off is another one, and is notified. -/
theorem loopback_announced {c : Chip} (h : c.OneLoopback) {out out' : Out} {on : Bool}
    (hne : out' ≠ out) (hs : on ≠ c.loopback out) (hc : c.loopback out' = true) :
    Ctl.loopback out' ∈ loopbackNotes out on c := by
  have hoff : c.loopback out = false := by
    rw [← Bool.not_eq_true]
    exact fun ht => hne (h out' out hc ht)
  have hon : on = true := by
    rw [hoff] at hs
    simpa using hs
  unfold loopbackNotes
  rw [loopbackPrev_eq h hc, hon]
  simp [hne]

/-- A new parameter of a strip leaves the others as they are. -/
theorem param_setParam {p p' : EqParam} (h : p' ≠ p) (e : EqChannel) (v fs : ℤ) :
    ((e.setParam p v).recompute fs).param p' = e.param p' := by
  have hupd : ∀ {f : Fin 3 → ℤ} {b b' : Fin 3}, b' ≠ b → Function.update f b v b' = f b' := fun hb =>
    Function.update_of_ne hb _ _
  cases p <;> cases p' <;> first
    | rfl
    | exact absurd rfl h
    | exact hupd fun hb => h (by rw [hb])

/-- So is a parameter of the EQ. -/
theorem bfGet_cacheEq {strip : Mic} {p : EqParam} {v : ℤ} (c : Chip) {g : Ctl} (hg : g ≠ .eq strip p) :
    bfGet (cacheEq strip p v c) g = bfGet c g := by
  cases g with
  | eq strip' p' =>
    simp only [bfGet, cacheEq, recomputeStrip]
    by_cases hs : strip' = strip
    · subst hs
      have hne : p' ≠ p := fun he => hg (by rw [he])
      rw [Function.update_self, Function.update_self, param_setParam hne]
    · rw [Function.update_of_ne hs, Function.update_of_ne hs]
  | _ => rfl

/-- A trim shows in its own control, and in that of the pair's other microphone. -/
theorem bfGet_cacheTrim {mic : Mic} {db : ℤ} (c : Chip) {g : Ctl} (hg : g ≠ .trim mic)
    (hsib : g ≠ .trim mic.sib) : bfGet (cacheTrim mic db c) g = bfGet c g := by
  cases g with
  | trim mic' =>
    have hself : mic' ≠ mic := fun he => hg (by rw [he])
    have hother : mic' ≠ mic.sib := fun he => hsib (by rw [he])
    simp only [bfGet, cacheTrim, Function.update_of_ne hother, Function.update_of_ne hself]
  | _ => rfl

/-- A mute shows in its own control. -/
theorem bfGet_mute {out : Out} {muted : Bool} (c : Chip) {g : Ctl} (hg : g ≠ .mute out) :
    bfGet ((Setting.mute out muted).cache c) g = bfGet c g := by
  cases g with
  | mute out' =>
    have hother : out' ≠ out := fun he => hg (by rw [he])
    simp only [bfGet, Setting.cache, Function.update_of_ne hother]
  | _ => rfl

/-- A phase switch shows in its own control. -/
theorem bfGet_phase {mic : Mic} {invert : Bool} (c : Chip) {g : Ctl} (hg : g ≠ .phase mic) :
    bfGet ((Setting.phase mic invert).cache c) g = bfGet c g := by
  cases g with
  | phase mic' =>
    have hother : mic' ≠ mic := fun he => hg (by rw [he])
    simp only [bfGet, Setting.cache, Function.update_of_ne hother]
  | _ => rfl

/-- A split shows in its own control. -/
theorem bfGet_split {pb : Out} {on : Bool} (c : Chip) {g : Ctl} (hg : g ≠ .split pb) :
    bfGet ((Setting.split pb on).cache c) g = bfGet c g := by
  cases g with
  | split pb' =>
    have hother : pb' ≠ pb := fun he => hg (by rw [he])
    simp only [bfGet, Setting.cache, Function.update_of_ne hother]
  | _ => rfl

/-- No two switches of the preamp byte share a bit. -/
theorem preampBits_apart : ∀ mic mic' : Fin 2, (mic' ≠ mic → phantomBit mic &&& phantomBit mic' = 0) ∧
    (mic' ≠ mic → padBit mic &&& padBit mic' = 0) ∧ phantomBit mic &&& padBit mic' = 0 ∧
    padBit mic &&& phantomBit mic' = 0 ∧ BF_PREAMP_REF_MASK &&& phantomBit mic' = 0 ∧
    BF_PREAMP_REF_MASK &&& padBit mic' = 0 := by decide

/-- 48V shows in its own control. -/
theorem bfGet_phantom {mic : Fin 2} {on : Bool} (c : Chip) {g : Ctl} (hg : g ≠ .phantom mic) :
    bfGet ((Setting.preampBit (phantomBit mic) on).cache c) g = bfGet c g := by
  refine bfGet_preamp (setBit_frame _ _ _) (fun mic' he => ?_) fun mic' _ => ?_
  · exact (preampBits_apart mic mic').1 fun hm => hg (by rw [he, hm])
  · exact (preampBits_apart mic mic').2.2.1

/-- A pad shows in its own control. -/
theorem bfGet_pad {mic : Fin 2} {on : Bool} (c : Chip) {g : Ctl} (hg : g ≠ .pad mic) :
    bfGet ((Setting.preampBit (padBit mic) on).cache c) g = bfGet c g := by
  refine bfGet_preamp (setBit_frame _ _ _) (fun mic' _ => ?_) fun mic' he => ?_
  · exact (preampBits_apart mic mic').2.2.2.1
  · exact (preampBits_apart mic mic').2.1 fun hm => hg (by rw [he, hm])

/-- The ref level shows in its own control: its bits of the preamp byte are no switch's. -/
theorem bfGet_cacheRefLevel {item : ℕ} (c : Chip) {g : Ctl} (hg : g ≠ .refLevel) :
    bfGet (cacheRefLevel item c) g = bfGet c g := by
  have hlevel : bfGet (cacheRefLevel item c) g =
      bfGet { c with preamp := (cacheRefLevel item c).preamp } g := by
    cases g with
    | refLevel => exact absurd rfl hg
    | _ => rfl
  refine hlevel.trans (bfGet_preamp (cacheRefLevel_frame _ _) (fun mic' _ => ?_) fun mic' _ => ?_)
  · exact (preampBits_apart 0 mic').2.2.2.2.1
  · exact (preampBits_apart 0 mic').2.2.2.2.2

/-- A loopback shows in its own control, and in those of the outputs that it turns off. -/
theorem bfGet_cacheLoopback {out : Out} {on : Bool} (c : Chip) {g : Ctl} (hg : g ≠ .loopback out)
    (hoff : ∀ out', g = .loopback out' → c.loopback out' = false) :
    bfGet (cacheLoopback out on c) g = bfGet c g := by
  cases g with
  | loopback out' =>
    have hother : out' ≠ out := fun he => hg (by rw [he])
    simp only [bfGet, cacheLoopback, Function.update_of_ne hother, hoff out' rfl]
  | _ => rfl

/-- A put's change of the cache shows in its own control, and in those that it notifies. -/
theorem Setting.announced {ctl : Ctl} {x : ElemValue} {s : Setting} (h : ctl.setting x = some s) {c : Chip}
    (hl : c.OneLoopback) (hs : s.cached c = false) {g : Ctl} (hg : g ≠ ctl)
    (hne : bfGet (s.cache c) g ≠ bfGet c g) : g ∈ s.notes c := by
  cases ctl <;> simp only [Ctl.setting, Option.ite_none_right_eq_some, Option.some.injEq,
    reduceCtorEq] at h
  -- Two puts change other controls too, and notify them.
  case trim mic =>
    obtain ⟨-, rfl⟩ := h
    by_cases hsib : g = .trim mic.sib
    · rw [hsib]
      exact List.mem_singleton.mpr rfl
    · exact absurd (bfGet_cacheTrim c hg hsib) hne
  case loopback out =>
    subst h
    have hput : (decide (x.value 0 ≠ 0)) ≠ c.loopback out := by simpa [Setting.cached] using hs
    by_contra hnote
    refine hne (bfGet_cacheLoopback c hg fun out' he => ?_)
    subst he
    have hother : out' ≠ out := fun he => hg (by rw [he])
    rw [← Bool.not_eq_true]
    exact fun hon => hnote (loopback_announced hl hother hput hon)
  -- The other puts show in their own control only.
  case master out => obtain ⟨-, rfl⟩ := h; exact absurd (bfGet_cacheMaster c hg) hne
  case xpoint out src => obtain ⟨-, rfl⟩ := h; exact absurd (bfGet_cacheXpoint c hg) hne
  case gain mic => obtain ⟨-, rfl⟩ := h; exact absurd (bfGet_gain c hg) hne
  case eq strip p => obtain ⟨-, rfl⟩ := h; exact absurd (bfGet_cacheEq c hg) hne
  case mute out => subst h; exact absurd (bfGet_mute c hg) hne
  case phase mic => subst h; exact absurd (bfGet_phase c hg) hne
  case split pb => subst h; exact absurd (bfGet_split c hg) hne
  case phantom mic => subst h; exact absurd (bfGet_phantom c hg) hne
  case pad mic => subst h; exact absurd (bfGet_pad c hg) hne
  case refLevel => obtain ⟨-, rfl⟩ := h; exact absurd (bfGet_cacheRefLevel c hg) hne
  case pitch => obtain ⟨-, rfl⟩ := h; cases g <;> first | exact absurd rfl hne | exact absurd rfl hg
  case an12 => subst h; cases g <;> first | exact absurd rfl hne | exact absurd rfl hg
  case clock => obtain ⟨-, rfl⟩ := h; cases g <;> first | exact absurd rfl hne | exact absurd rfl hg
  case optical => obtain ⟨-, rfl⟩ := h; cases g <;> first | exact absurd rfl hne | exact absurd rfl hg
  case link => subst h; cases g <;> first | exact absurd rfl hne | exact absurd rfl hg
  case ms => subst h; cases g <;> first | exact absurd rfl hne | exact absurd rfl hg
  case dim => subst h; cases g <;> first | exact absurd rfl hne | exact absurd rfl hg
  case width => obtain ⟨-, rfl⟩ := h; cases g <;> first | exact absurd rfl hne | exact absurd rfl hg
  case fxSend => obtain ⟨-, rfl⟩ := h; cases g <;> first | exact absurd rfl hne | exact absurd rfl hg

/-- A failed put shows in its own control, if at all. -/
theorem Setting.failed_shows {ctl : Ctl} {x : ElemValue} {s : Setting} (h : ctl.setting x = some s) (c : Chip)
    {g : Ctl} (hg : g ≠ ctl) : bfGet (s.failed c) g = bfGet c g := by
  cases ctl <;> simp only [Ctl.setting, Option.ite_none_right_eq_some, Option.some.injEq,
    reduceCtorEq] at h
  case eq strip p => obtain ⟨-, rfl⟩ := h; exact bfGet_cacheEq c hg
  case clock => obtain ⟨-, rfl⟩ := h; cases g <;> first | rfl | exact absurd rfl hg
  case optical => obtain ⟨-, rfl⟩ := h; cases g <;> first | rfl | exact absurd rfl hg
  case dim => subst h; cases g <;> rfl
  -- The others leave the cache as it was.
  case master => obtain ⟨-, rfl⟩ := h; rfl
  case mute => subst h; rfl
  case xpoint => obtain ⟨-, rfl⟩ := h; rfl
  case phase => subst h; rfl
  case split => subst h; rfl
  case trim => obtain ⟨-, rfl⟩ := h; rfl
  case phantom => subst h; rfl
  case pad => subst h; rfl
  case refLevel => obtain ⟨-, rfl⟩ := h; rfl
  case gain => obtain ⟨-, rfl⟩ := h; rfl
  case pitch => obtain ⟨-, rfl⟩ := h; rfl
  case loopback => subst h; rfl
  case an12 => subst h; rfl
  case link => subst h; rfl
  case ms => subst h; rfl
  case width => obtain ⟨-, rfl⟩ := h; rfl
  case fxSend => obtain ⟨-, rfl⟩ := h; rfl

/-- The place in the flag cycle shows nowhere. -/
theorem bfGet_of_quiet {c d : Chip} (h : c.quiet = d.quiet) (g : Ctl) : bfGet c g = bfGet d g := by
  rw [← bfGet_quiet c, h, bfGet_quiet]

/-- The selection's put shows in its own control. -/
theorem bfPanelSelectPut_announces (k : Clock) (pair : Fin 3) (v : ℕ) :
    Bus.Relates (Announces (some (.panelSelect pair))) (bfPanelSelectPut k pair v) := by
  have hR := announces_linking (some (.panelSelect pair))
  have hmodify : ∀ f : Chip → Chip, (∀ c g, g ≠ .panelSelect pair → bfGet (f c) g = bfGet c g) →
      Bus.Relates (Announces (some (.panelSelect pair))) (modify f : Usb Unit) := fun f hf w =>
    ⟨[], (List.append_nil _).symm, fun g ho hne => absurd (hf w.chip g fun he => ho (by rw [he])) hne⟩
  have harm := hmodify (fun c => { c with panel_select_armed := true }) fun c g _ => by cases g <;> rfl
  have hload := hmodify bfPanelSelLoad fun c g _ => by cases g <;> rfl
  have hseed := hmodify bfPanelMixSeed fun c g _ => by cases g <;> rfl
  have hcache := fun sel => hmodify (cacheSel pair sel) fun c g hg => bfGet_sel c hg
  unfold bfPanelSelectPut
  refine hR.get fun w => hR.ite _ (fun _ => hR.throw _) (fun _ => ?_) w
  refine hR.ite _ (fun _ => hR.pure _) fun _ => hR.bind (hR.when _ fun _ => harm) fun _ => ?_
  refine hR.ite _ (fun _ => hR.pure _) fun _ => hR.bind (hcache _) fun _ => ?_
  exact hR.bind (hR.when _ fun _ => hR.bind hload fun _ => hR.when _ fun _ => hseed) fun _ => hR.pure _

/-- A put notifies what it changes besides its own control. -/
theorem bfPut_announces (k : Clock) (x : ElemValue) (ctl : Ctl) {w : World} (hl : w.chip.OneLoopback) :
    Announces (some ctl) w (bfPut k x ctl w).2 := by
  obtain ⟨s, hs, hh⟩ | ⟨pair, rfl⟩ | ⟨-, hr⟩ := bfPut_cases k x ctl
  · cases hsame : s.cached w.chip.quiet with
    | true =>
      rw [hh.unchanged w hsame]
      exact (announces_linking _).refl w
    | false =>
      obtain ⟨-, hc, -, hn, -⟩ := hh.changed w hsame
      have hown : ∀ {g : Ctl}, some ctl ≠ some g → g ≠ ctl := fun ho he => ho (by rw [he])
      split at hc
      · rename_i hk
        rw [if_pos hk] at hn
        refine ⟨_, hn, fun g ho hne => ?_⟩
        rw [bfGet_of_quiet hc, ← bfGet_quiet w.chip] at hne
        exact Setting.announced (c := w.chip.quiet) hs hl hsame (hown ho) hne
      · rename_i hk
        rw [if_neg hk] at hn
        refine ⟨_, hn, fun g ho hne => ?_⟩
        rw [bfGet_of_quiet hc, Setting.failed_shows hs _ (hown ho), bfGet_quiet] at hne
        exact absurd rfl hne
  · exact bfPanelSelectPut_announces k pair _ w
  · obtain ⟨e, -, hp⟩ := hr w
    rw [hp]
    exact (announces_linking _).refl w

/-! ## One loopback at all times -/

/-- A loopback in the cache is the only one. -/
theorem cacheLoopback_one (out : Out) (on : Bool) (c : Chip) : (cacheLoopback out on c).OneLoopback := by
  have hself : ∀ a, Function.update (fun _ : Out => false) out on a = true → a = out := fun a ha => by
    by_contra hne
    rw [Function.update_of_ne hne] at ha
    cases ha
  exact fun a b ha hb => (hself a ha).trans (hself b hb).symm

/-- The states that a put leaves. -/
theorem Setting.oneLoopback (s : Setting) {c : Chip} (h : c.OneLoopback) :
    (s.cache c).OneLoopback ∧ (s.failed c).OneLoopback := by
  cases s with
  | loopback out on => exact ⟨cacheLoopback_one out on c, h⟩
  | _ => exact ⟨h, h⟩

/-- Each step of the card leaves at most one loopback on. -/
theorem CardStep.oneLoopback {w w' : World} (hs : CardStep w w') (h : w.chip.OneLoopback) :
    w'.chip.OneLoopback := by
  have hF : Bus.Framing fun c d : Chip => c.OneLoopback → d.OneLoopback := Bus.Framing.keeps _
  -- The stream, the panel and the EQ have no loopback.
  have hmixer : ∀ c d : Chip, d.loopback = c.loopback → c.OneLoopback → d.OneLoopback :=
    fun c d he hc => by
      unfold Chip.OneLoopback
      rw [he]
      exact hc
  have hq : Bus.Respects Chip.quiet fun c d : Chip => c.OneLoopback → d.OneLoopback :=
    fun c c' d d' hc hd hcd hc' => by
      rw [Chip.quiet_eq hc] at hc'
      rw [Chip.quiet_eq hd]
      exact hcd hc'
  have hpoll : ∀ p t (w : World), w.chip.OneLoopback → (babyfacePanelWork p t w).2.chip.OneLoopback :=
    fun p t w hw => (babyfacePanelWork_frames hF (fun c d _ hm _ => hmixer c d (by rw [hm]))
      (fun _ _ _ _ h => h) (fun _ _ _ _ _ h => h) (fun _ _ h => h) (fun _ _ h => h) p t).state w hw
  -- A put that turns a loopback on turns the others off, done or failed.
  have hput : ∀ k x ctl (w : World), w.chip.OneLoopback → (bfPut k x ctl w).2.chip.OneLoopback :=
    fun k x ctl w hw => by
      obtain ⟨s, hs, hh⟩ | ⟨pair, rfl⟩ | ⟨-, hr⟩ := bfPut_cases k x ctl
      · have hk : Keeps (fun c d : Chip => c.OneLoopback → d.OneLoopback) (bfPut k x ctl) :=
          hh.frames Chip.quiet_quiet hF hq (fun c hc => (s.oneLoopback hc).1)
            (fun c hc => (s.oneLoopback hc).2) (fun _ _ _ => trivial) trivial
        exact hk.state w hw
      · have hk : Keeps (fun c d : Chip => c.OneLoopback → d.OneLoopback) (bfPanelSelectPut k pair x.item) :=
          bfPanelSelectPut_frames hF (fun c d hm _ => hmixer c d (by rw [hm])) k pair _
        exact hk.state w hw
      · obtain ⟨e, -, hp⟩ := hr w
        rw [hp]
        exact hw
  exact hs.keeps hq hput hpoll (fun _ _ _ h => h) (fun _ h => h) (fun _ h => h) (fun _ _ h => h)
    (fun _ _ h => h) h

/-- At most one loopback is ever on. -/
theorem Reachable.oneLoopback {w : World} (h : Reachable w) : w.chip.OneLoopback := by
  obtain ⟨_, _, _, _, w₀, hp, hr⟩ := h
  induction hr with
  | refl =>
    obtain ⟨st, hq, -⟩ := babyfaceProbe_run hp
    have hoff := (probed_fields hq).2.1
    intro a b ha
    rw [hoff] at ha
    cases ha
  | tail _ hs ih => exact hs.oneLoopback ih

/-! ## The wheel -/

section Wheel

variable {own : Option Ctl}

/-- The 8-bit masters of an output, as the panel writes them. -/
theorem post8_announces (out : Out) (l8 r8 : U8) : Bus.Relates (Announces own) (post8 out l8 r8) :=
  (announces_linking own).bind (post_announces _ _ _) fun _ => post_announces _ _ _

/-- Its 16-bit masters. -/
theorem post16_announces (out : Out) (l16 r16 : U16) (flag : ℕ) :
    Bus.Relates (Announces own) (post16 out l16 r16 flag) :=
  (announces_linking own).bind (post_announces _ _ _) fun _ => post_announces _ _ _

/-- All four masters of an output. -/
theorem postOut_announces (out : Out) (muted dim : Bool) (l r : U16) :
    Bus.Relates (Announces own) (postOut out muted dim l r) := by
  have hR := announces_linking own
  exact hR.bind nextFlag_announces fun _ => hR.bind (post8_announces _ _ _) fun _ =>
    post16_announces _ _ _ _

/-- A turn of the wheel on the outputs says which master it has moved. -/
theorem bfPanelOutWheel_announces (delta now : ℤ) :
    Bus.Relates (Announces own) (bfPanelOutWheel delta now) := by
  have hR := announces_linking own
  have hwrite : ∀ out l r, Bus.Relates (Announces own) (bfPanelOutWheelWrite out l r) := fun out l r =>
    hR.get fun w => hR.bind nextFlag_announces (fun _ => hR.bind (post16_announces _ _ _ _) fun _ =>
      announce_announces fun c g hg => bfGet_cacheMaster c hg) w
  have htrack : ∀ out db now, Bus.Relates (Announces own)
      (modify (trackWheel out db delta now) : Usb Unit) := fun _ _ _ =>
    modify_announces fun c g => by cases g <;> rfl
  unfold bfPanelOutWheel
  refine hR.get fun w => hR.ite _ (fun _ => post8_announces _ _ _) (fun _ => ?_) w
  exact hR.bind (hwrite _ _ _) fun _ => htrack _ _ _

/-- So does a turn on the balance. -/
theorem bfPanelBalanceWheel_announces (delta : ℤ) :
    Bus.Relates (Announces own) (bfPanelBalanceWheel delta) := by
  have hR := announces_linking own
  have hwrite : ∀ out l r, Bus.Relates (Announces own) (bfPanelWriteMaster out l r) := fun out l r =>
    hR.get fun w => hR.bind (postOut_announces _ _ _ _ _) (fun _ =>
      announce_announces fun c g hg => bfGet_cacheMaster c hg) w
  unfold bfPanelBalanceWheel
  refine hR.get fun w => hR.ite _ (fun _ => post8_announces _ _ _) (fun _ => ?_) w
  exact hR.ite _ (fun _ => hR.pure _) fun _ => hwrite _ _ _

/-- The resync reads no other step than the cached one. -/
theorem bfPanelOutResync_announces (now : ℤ) : Bus.Relates (Announces own) (bfPanelOutResync now) := by
  have hR := announces_linking own
  have hdone : Bus.Relates (Announces own)
      (modify (fun c : Chip => { c with panel_out_resync := false }) : Usb Unit) :=
    modify_announces fun c g => by cases g <;> rfl
  unfold bfPanelOutResync
  refine hR.get fun w => hR.ite _ (fun _ => hR.pure _) (fun _ => hR.bind hdone fun _ => ?_) w
  exact hR.ite _ (fun _ => hR.pure _) fun _ => hR.ite _ (fun _ => hR.pure _) fun _ =>
    postOut_announces _ _ _ _ _

/-- A turn on a gain says which gain it has moved. -/
theorem bfPanelGainWheel_announces (delta : ℤ) : Bus.Relates (Announces own) (bfPanelGainWheel delta) := by
  have hR := announces_linking own
  have hclick : ∀ mic, Bus.Relates (Announces own) (gainClick delta mic) := fun mic => by
    unfold gainClick
    refine hR.get fun w => hR.bind (post_announces _ _ _) (fun _ => ?_) w
    exact hR.ite _ (fun _ => announce_announces fun c g hg => bfGet_gain c hg) fun _ => hR.pure _
  unfold bfPanelGainWheel
  exact hR.get fun w => hR.ite _ (fun _ => hR.pure _) (fun _ => hR.each _ fun mic _ => hclick mic) w

/-- The level display shows in no control. -/
theorem mixDisp_announces (db2 : ℤ) (mic : Mic) : Bus.Relates (Announces own) (mixDisp db2 mic) := by
  have hR := announces_linking own
  have hdisp : Bus.Relates (Announces own) (modify (fun c : Chip => { c with
      panel_mix_disp := Function.update c.panel_mix_disp mic (.ofInt 8 (bfMixDisplay db2)) }) : Usb Unit) :=
    modify_announces fun c g => by cases g <;> rfl
  unfold mixDisp
  refine hR.get fun w => hR.ite _ (fun _ => ?_) (fun _ => hR.pure _) w
  exact hR.bind (post_announces _ _ _) fun _ => hdisp

/-- A turn on the mix says which fader it has moved. -/
theorem bfPanelMixWheel_announces (delta : ℤ) : Bus.Relates (Announces own) (bfPanelMixWheel delta) := by
  have hR := announces_linking own
  have hlevel : ∀ db2, Bus.Relates (Announces own)
      (modify (fun c : Chip => { c with panel_mix_db2 := db2 }) : Usb Unit) := fun _ =>
    modify_announces fun c g => by cases g <;> rfl
  have hclick : ∀ out db2 src, Bus.Relates (Announces own) (mixClick out db2 src) := fun out db2 src => by
    unfold mixClick
    refine hR.bind nextFlag_announces fun _ => hR.bind (post_announces _ _ _) fun _ =>
      hR.bind (post_announces _ _ _) fun _ => ?_
    refine hR.bind (announce_announces fun c g hg => bfGet_cacheXpoint c hg) fun _ => ?_
    split
    · exact mixDisp_announces _ _
    · exact hR.pure _
  unfold bfPanelMixWheel
  exact hR.get fun w => hR.bind (hlevel _) (fun _ => hR.each _ fun src _ => hclick _ _ _) w

/-! ## The stages of a poll -/

/-- The buttons of a readback. -/
theorem tickButton_announces (st : Readback) : Bus.Relates (Announces own) (tickButton st) := by
  have hR := announces_linking own
  unfold tickButton
  refine hR.get fun w => hR.ite _ (fun _ => ?_) (fun _ => hR.pure _) w
  exact announce_announces fun c g hg => by cases g <;> first | rfl | exact absurd rfl hg

/-- Its clicks. -/
theorem tickWheel_announces (st : Readback) (now : ℤ) :
    Bus.Relates (Announces own) (tickWheel st now) := by
  have hR := announces_linking own
  have hcount : ∀ n, Bus.Relates (Announces own)
      (announce (fun c => { c with panel_wheel := max (-32768) (min (c.panel_wheel + n) 32767) })
        .panelWheel) := fun n =>
    announce_announces fun c g hg => by cases g <;> first | rfl | exact absurd rfl hg
  unfold tickWheel
  refine hR.get fun w => hR.ite _ (fun _ => hR.bind (hcount _) fun _ => ?_) (fun _ => hR.pure _) w
  refine hR.ite _ (fun _ => bfPanelMixWheel_announces _) fun _ => ?_
  refine hR.ite _ (fun _ => bfPanelBalanceWheel_announces _) fun _ => ?_
  refine hR.ite _ (fun _ => bfPanelOutWheel_announces _ _) fun _ => ?_
  exact hR.ite _ (fun _ => bfPanelGainWheel_announces _) fun _ => hR.pure _

/-- Its input selection. -/
theorem tickIn_announces (st : Readback) : Bus.Relates (Announces own) (tickIn st) := by
  have hR := announces_linking own
  unfold tickIn
  refine hR.get fun w => hR.ite _ (fun _ => ?_) (fun _ => hR.pure _) w
  exact announce_announces fun c g hg => by cases g <;> first | rfl | exact absurd rfl hg

/-- Its output selection. -/
theorem tickOut_announces (st : Readback) : Bus.Relates (Announces own) (tickOut st) := by
  have hR := announces_linking own
  unfold tickOut
  refine hR.get fun w => hR.ite _ (fun _ => ?_) (fun _ => hR.pure _) w
  exact announce_announces fun c g hg => by cases g <;> first | rfl | exact absurd rfl hg

/-- The SELECT key. -/
theorem tickSelect_announces (st : Readback) : Bus.Relates (Announces own) (tickSelect st) := by
  have hR := announces_linking own
  have hstep : ∀ pair, Bus.Relates (Announces own) (announce (stepSelect pair) (.panelSelect pair)) :=
    fun pair => announce_announces fun c g hg => by
      -- The selection in use shows nowhere, that of the pair in its control.
      have hcache : bfGet (stepSelect pair c) g = bfGet (cacheSel pair ((c.panel_select + 1) % 4) c) g := by
        cases g <;> rfl
      rw [hcache, bfGet_sel c hg]
  have hseed : Bus.Relates (Announces own) (modify bfPanelMixSeed : Usb Unit) :=
    modify_announces fun c g => by cases g <;> rfl
  have harm : Bus.Relates (Announces own)
      (modify (fun c : Chip => { c with panel_select_armed := true }) : Usb Unit) :=
    modify_announces fun c g => by cases g <;> rfl
  unfold tickSelect
  refine hR.get fun w => hR.ite _ (fun _ => ?_) (fun _ => hR.pure _) w
  refine hR.ite _ (fun _ => ?_) fun _ => harm
  split
  · exact hR.throw _
  · exact hR.bind (hstep _) fun _ => hR.when _ fun _ => hseed

/-- The hold of a key. -/
theorem tickHold_announces (st : Readback) : Bus.Relates (Announces own) (tickHold st) :=
  modify_announces fun c g => by cases g <;> rfl

/-- The press of DIM. -/
theorem tickDimPress_announces (st : Readback) : Bus.Relates (Announces own) (tickDimPress st) := by
  have hR := announces_linking own
  unfold tickDimPress
  refine hR.get fun w => hR.when _ (fun _ => ?_) w
  exact announce_announces fun c g hg => by cases g <;> first | rfl | exact absurd rfl hg

/-- Leaving MIX changes the readings of no control. -/
theorem mixExit_announces : Bus.Relates (Announces own) mixExit := by
  have hR := announces_linking own
  refine hR.bind (post_announces _ _ _) fun _ => hR.bind (post_announces _ _ _) fun _ => ?_
  exact announce_announces fun c g hg => by cases g <;> first | rfl | exact absurd rfl hg

/-- The display of a fader. -/
theorem tickFader_announces (st : Readback) : Bus.Relates (Announces own) (tickFader st) := by
  have hR := announces_linking own
  have hsaw : Bus.Relates (Announces own)
      (modify (fun c : Chip => { c with panel_saw_fader := true }) : Usb Unit) :=
    modify_announces fun c g => by cases g <;> rfl
  unfold tickFader
  exact hR.get fun w => hR.ite _ (fun _ => hR.when _ fun _ => hsaw)
    (fun _ => hR.when _ fun _ => mixExit_announces) w

/-- DIM, engaged or released by its key. -/
theorem tickDim_announces (st : Readback) : Bus.Relates (Announces own) (tickDim st) := by
  have hR := announces_linking own
  unfold tickDim
  refine hR.get fun w => hR.ite _ (fun _ => ?_) (fun _ => hR.pure _) w
  exact announce_announces fun c g hg => by cases g <;> first | rfl | exact absurd rfl hg

end Wheel

/-- A change that one control shows, and its notification at the end. -/
theorem notify_last {m : Usb Unit} {ctl : Ctl} (hm : Bus.Relates (Announces (some ctl)) m)
    (hok : ∀ w, ∃ a w', m w = (.ok a, w')) : Bus.Relates (Announces none) (do m; notify ctl) := fun w => by
  obtain ⟨_, w', hrun⟩ := hok w
  have hw := hm w
  rw [hrun] at hw
  obtain ⟨ns, hn, hg⟩ := hw
  rw [Bus.M.bind_of_ok hrun, Bus.M.notify_run]
  refine ⟨ns ++ [ctl], ?_, fun g _ hne => List.mem_append.mpr ?_⟩
  · show w'.notes ++ [ctl] = _
    rw [hn, List.append_assoc]
  · by_cases he : g = ctl
    · exact .inr (List.mem_singleton.mpr he)
    · exact .inl (hg g (fun h => he (Option.some.inj h).symm) hne)

/-- Engaging MIX. -/
theorem mixEngage_announces : Bus.Relates (Announces none) mixEngage := by
  have hR := announces_linking (some .panelMix)
  have hF : Bus.Framing fun _ _ : Chip => True := ⟨fun _ => trivial, fun _ _ => trivial⟩
  -- The mark and the seeds show in MIX's own control, which is notified last.
  have hset : Bus.Relates (Announces (some .panelMix)) (modify (fun c : Chip =>
      { bfPanelMixSeed { c with panel_mix := true } with panel_mix_disp := fun _ => 0 }) : Usb Unit) :=
    fun w => ⟨[], (List.append_nil _).symm, fun g ho hne => by
      cases g <;> first | exact absurd rfl hne | exact absurd rfl ho⟩
  have hdisp : Bus.Relates (Announces (some .panelMix)) mixSeedDisp := by
    unfold mixSeedDisp
    refine hR.get fun w => ?_
    split
    · exact hR.bind (post_announces _ _ _) (fun _ => modify_announces fun c g => by cases g <;> rfl) w
    · exact hR.pure _ w
  -- The displays are written without looking at the result, so nothing stops the notification.
  have hok : Bus.Frames Xfer.write (fun _ _ : Chip => True) (fun _ => True) (fun _ => False)
      (do post BF_REQ_PREAMP 0x8480 0x8c80
          modify fun c => { bfPanelMixSeed { c with panel_mix := true } with panel_mix_disp := fun _ => 0 }
          mixSeedDisp : Usb Unit) := by
    refine hF.bind (post_frames hF trivial) fun _ => hF.bind (hF.modify fun _ => trivial) fun _ => ?_
    unfold mixSeedDisp
    refine hF.bind hF.get fun c => ?_
    split
    · exact hF.bind (post_frames hF trivial) fun _ => hF.modify fun _ => trivial
    · exact hF.pure _
  have hassoc : mixEngage = (do
      (do post BF_REQ_PREAMP 0x8480 0x8c80
          modify fun c => { bfPanelMixSeed { c with panel_mix := true } with panel_mix_disp := fun _ => 0 }
          mixSeedDisp : Usb Unit)
      notify .panelMix) := by simp only [mixEngage, bind_assoc]
  rw [hassoc]
  exact notify_last (hR.bind (post_announces _ _ _) fun _ => hR.bind hset fun _ => hdisp) hok.run_ok

/-- The MIX key. -/
theorem tickMix_announces (st : Readback) : Bus.Relates (Announces none) (tickMix st) := by
  have hR := announces_linking none
  unfold tickMix
  exact hR.get fun w => hR.when _ (fun _ => hR.ite _ (fun _ => mixExit_announces) fun _ =>
    mixEngage_announces) w

/-! ## SET -/

/-- The switches that are told of a change of the byte from `old` to `v`. -/
def phantomNotes (old v : U16) : List Ctl :=
  (if (v ^^^ old) &&& BF_PREAMP_48V_MIC1 ≠ 0 then [.phantom 0] else []) ++
    (if (v ^^^ old) &&& BF_PREAMP_48V_MIC2 ≠ 0 then [.phantom 1] else [])

/-- A note under a condition. -/
theorem when_notify_run (q : Prop) [Decidable q] (ctl : Ctl) (w : World) :
    (when q (notify ctl) : Usb Unit) w = (.ok (), { w with notes := w.notes ++ if q then [ctl] else [] }) := by
  by_cases hq : q
  · simp only [hq, decide_true, if_true]
    rfl
  · simp only [hq, decide_false, if_false, List.append_nil]
    rfl

/-- The notes of a change of 48V, one for each input whose bit has changed. -/
theorem phantomNotify_run (old : U16) (w : World) : phantomNotify old w = (.ok (),
    { w with
      chip := { w.chip with panel_mix_disp := fun _ => 0 }
      notes := w.notes ++ phantomNotes old w.chip.preamp }) := by
  unfold phantomNotify phantomNotes
  rw [Bus.M.bind_of_ok (Bus.M.get_run w), Bus.M.bind_of_ok (when_notify_run _ _ _),
    Bus.M.bind_of_ok (when_notify_run _ _ _), Bus.M.modify_run, List.append_assoc]

/-- The phantom switches whose bit differs are told. -/
theorem phantomNotes_complete {old v : U16} (mic : Fin 2) (h : v &&& phantomBit mic ≠ old &&& phantomBit mic) :
    Ctl.phantom mic ∈ phantomNotes old v := by
  have hdiffer : ∀ bit, v &&& bit ≠ old &&& bit → (v ^^^ old) &&& bit ≠ 0 := fun bit hne hzero => by
    have hmask : ~~~bit &&& bit = 0 := by
      ext i hi
      simp
    have hframe : (v ^^^ old) &&& ~~~(~~~bit) = 0 := by rw [BitVec.not_not, hzero]
    exact hne (and_eq_of_frame hframe hmask)
  unfold phantomNotes
  match mic with
  | 0 =>
    have h0 : (v ^^^ old) &&& BF_PREAMP_48V_MIC1 ≠ 0 := hdiffer _ h
    rw [if_pos h0]
    exact List.mem_append_left _ List.mem_cons_self
  | 1 =>
    have h1 : (v ^^^ old) &&& BF_PREAMP_48V_MIC2 ≠ 0 := hdiffer _ h
    rw [if_pos h1]
    exact List.mem_append_right _ List.mem_cons_self

/-- 48V by SET says which inputs it has switched. -/
theorem bfPanelSetPhantom_announces : Bus.Relates (Announces none) bfPanelSetPhantom := by
  have hR := announces_linking none
  intro w
  unfold bfPanelSetPhantom
  rw [Bus.M.bind_of_ok (Bus.M.get_run w), Bus.M.ite_run]
  split
  · exact hR.refl w
  set m : Usb Unit := settle cachePhantom bfPreampStateWrite restorePreamp with hm
  obtain ⟨-, hc, -, hn, -⟩ := Bus.Sends.settle bfPreampStateWrite_writes Chip.quiet_quiet
    (fun c => rfl : ∀ c : Chip, (cachePhantom c.quiet).quiet = (cachePhantom c).quiet)
    (fun _ _ => rfl : ∀ old c : Chip,
      (restorePreamp old.quiet c.quiet).quiet = (restorePreamp old c).quiet) w
  rw [← hm] at hc hn
  obtain ⟨b, hi⟩ := Bus.M.attempt_run m w
  unfold Bus.M.ignore
  simp only [bind_assoc, Bus.M.bind_of_ok hi, pure_bind]
  -- Whatever became of the write, the byte differs in the selected 48V bits only.
  obtain ⟨v, hv, hframe⟩ : ∃ v, (m w).2.chip.quiet = ({ w.chip with preamp := v } : Chip).quiet ∧
      (v ^^^ w.chip.preamp) &&& ~~~phantomBits w.chip = 0 := by
    split at hc
    · exact ⟨phantomToggle w.chip, hc, (phantomToggle_toggled w.chip).frame⟩
    · refine ⟨w.chip.preamp, hc, ?_⟩
      rw [BitVec.xor_self]
      exact BitVec.zero_and
  have hbyte : (m w).2.chip.preamp = v := by
    have hq : (m w).2.chip.quiet.preamp = ({ w.chip with preamp := v } : Chip).quiet.preamp := by rw [hv]
    exact hq
  rw [phantomNotify_run, hbyte, hn]
  refine ⟨_, rfl, fun g _ hne => ?_⟩
  -- The displays that are cleared show in no control.
  have hshow : bfGet { (m w).2.chip with panel_mix_disp := fun _ => 0 } g =
      bfGet { w.chip with preamp := v } g := by
    rw [← bfGet_of_quiet hv]
    cases g <;> rfl
  -- The bits of 48V are no pad's.
  have hpad : ∀ mic, phantomBits w.chip &&& padBit mic = 0 := by
    have hbits : ∀ a b : U16, ∀ mic, (a = BF_PREAMP_48V_MIC1 ∨ a = 0) → (b = BF_PREAMP_48V_MIC2 ∨ b = 0) →
        (a ||| b) &&& padBit mic = 0 := by
      rintro a b mic (rfl | rfl) (rfl | rfl) <;> revert mic <;> decide
    intro mic
    refine hbits _ _ mic ?_ ?_
    · split <;> simp
    · split <;> simp
  have hne' : bfGet { w.chip with preamp := v } g ≠ bfGet w.chip g := by
    rw [← hshow]
    exact hne
  cases g with
  | phantom mic =>
    refine phantomNotes_complete mic fun hsame => hne' ?_
    simp only [bfGet, hsame]
  | pad mic => exact absurd (by simp only [bfGet, and_eq_of_frame hframe (hpad mic)]) hne'
  | _ => exact absurd rfl hne'

/-- The SET key. -/
theorem tickSet_announces (st : Readback) : Bus.Relates (Announces none) (tickSet st) := by
  have hR := announces_linking none
  unfold tickSet
  exact hR.get fun w => hR.when _ (fun _ => bfPanelSetPhantom_announces) w

/-! ## A poll -/

/-- Every poll after the first notifies what it changes. -/
theorem decode_announces (p : Poll) : Bus.Relates (Announces none) (decode p) := by
  have hR := announces_linking none
  unfold decode
  refine hR.bind (tickButton_announces _) fun _ => hR.bind (tickWheel_announces _ _) fun _ => ?_
  refine hR.bind (bfPanelOutResync_announces _) fun _ => hR.bind (tickIn_announces _) fun _ => ?_
  refine hR.bind (tickOut_announces _) fun _ => hR.bind (tickSelect_announces _) fun _ => ?_
  refine hR.bind (tickHold_announces _) fun _ => hR.bind (tickSet_announces _) fun _ => ?_
  refine hR.bind (tickDimPress_announces _) fun _ => hR.bind (tickMix_announces _) fun _ => ?_
  refine hR.bind (tickFader_announces _) fun _ => hR.bind (tickDim_announces _) fun _ => ?_
  exact modify_announces fun c g => by cases g <;> rfl

/-- A snapshot that differs from the cached readings: the IN and OUT selections, MIX, or DIM. -/
def SnapshotDiffers (st : Readback) (c : Chip) : Prop :=
  (bfPanelInDecode st ≠ 0 ∧ bfPanelInDecode st ≠ c.panel_in) ∨
    (bfPanelOutDecode st ≠ 0 ∧ bfPanelOutDecode st ≠ c.panel_out) ∨
    decide (st 0 &&& 0x80 ≠ 0) ≠ c.panel_mix ∨ decide (st 1 &&& 0x20 ≠ 0) ≠ c.panel_dim

/-- What a snapshot changes shows in the four readings only. -/
theorem bfGet_snapshot_iff (st : Readback) (c : Chip) :
    (∃ g, bfGet (snapshot st c) g ≠ bfGet c g) ↔ SnapshotDiffers st c := by
  -- A reading changes when the decoded value is one, and another one.
  have hbool : ∀ a b : Bool, [ofBool a] ≠ [ofBool b] ↔ a ≠ b := by decide
  have hnat : ∀ a b : ℕ, [(a : ℤ)] ≠ [(b : ℤ)] ↔ a ≠ b := by
    intro a b
    rw [ne_eq, List.cons_eq_cons, and_iff_left rfl, Int.natCast_inj]
  have hsel : ∀ v k : ℕ, (if v ≠ 0 then v else k) ≠ k ↔ v ≠ 0 ∧ v ≠ k := by
    intro v k
    split <;> simp [*]
  have hin : bfGet (snapshot st c) .panelIn ≠ bfGet c .panelIn ↔
      bfPanelInDecode st ≠ 0 ∧ bfPanelInDecode st ≠ c.panel_in := (hnat _ _).trans (hsel _ _)
  have hout : bfGet (snapshot st c) .panelOut ≠ bfGet c .panelOut ↔
      bfPanelOutDecode st ≠ 0 ∧ bfPanelOutDecode st ≠ c.panel_out := (hnat _ _).trans (hsel _ _)
  have hmix : bfGet (snapshot st c) .panelMix ≠ bfGet c .panelMix ↔
      decide (st 0 &&& 0x80 ≠ 0) ≠ c.panel_mix := hbool _ _
  have hdim : bfGet (snapshot st c) .panelDim ≠ bfGet c .panelDim ↔
      decide (st 1 &&& 0x20 ≠ 0) ≠ c.panel_dim := hbool _ _
  -- One of the four readings for each part of the condition.
  constructor
  · rintro ⟨g, hne⟩
    cases g with
    | panelIn => exact .inl (hin.mp hne)
    | panelOut => exact .inr (.inl (hout.mp hne))
    | panelMix => exact .inr (.inr (.inl (hmix.mp hne)))
    | panelDim => exact .inr (.inr (.inr (hdim.mp hne)))
    | _ => exact absurd rfl hne
  · rintro (h | h | h | h)
    · exact ⟨_, hin.mpr h⟩
    · exact ⟨_, hout.mpr h⟩
    · exact ⟨_, hmix.mpr h⟩
    · exact ⟨_, hdim.mpr h⟩

/-- A poll that takes the first snapshot after a start of the panel: it is not at the end, its readback
gets through, and none did since the start. -/
def FirstSnapshot (w : World) : Prop :=
  w.chip.shutdown = false ∧ w.usb 0 = true ∧ w.chip.panel_seen = false

/-- A poll takes the first snapshot, which notifies nothing, or notifies what it changes. -/
theorem babyfacePanelWork_announces (p : Poll) (t : ℤ) (w : World) :
    (FirstSnapshot w ∧ (babyfacePanelWork p t w).2.notes = w.notes ∧
        ∀ g, bfGet (babyfacePanelWork p t w).2.chip g = bfGet (snapshot p.st w.chip) g) ∨
      (¬ FirstSnapshot w ∧ Announces none w (babyfacePanelWork p t w).2) := by
  have hR := announces_linking none
  have htime : Bus.Relates (Announces none) (modify (fun c => { c with panel_poll_t := t }) : Usb Unit) :=
    modify_announces fun c g => by cases g <;> rfl
  by_cases hfirst : FirstSnapshot w
  -- The first snapshot: the cache takes the readback, with no notification.
  · obtain ⟨hshut, husb, hseen⟩ := hfirst
    refine .inl ⟨⟨hshut, husb, hseen⟩, ?_⟩
    have hrun : babyfacePanelWork p t w = (.ok (), { w with
        chip := { snapshot p.st w.chip with panel_poll_t := t }, usb := Bus.shift w.usb 1 }) := by
      simp only [babyfacePanelWork, bfPanelTick, Bus.M.bind_run, Bus.M.get_run, hshut, Bool.not_false,
        when, if_true, Bus.M.attempt, Bus.M.recv, husb, hseen, Bool.false_eq_true, if_false,
        Bus.M.modify_run]
    rw [hrun]
    exact ⟨rfl, fun g => by cases g <;> rfl⟩
  -- Otherwise the poll reads nothing, or decodes with its notifications.
  · refine .inr ⟨hfirst, ?_⟩
    have htick : w.chip.shutdown = false → Announces none w (bfPanelTick p w).2 := fun hshut => by
      unfold bfPanelTick
      cases husb : w.usb 0 with
      | false =>
        simp only [Bus.M.bind_run, Bus.M.attempt, Bus.M.recv, husb, Bool.false_eq_true, if_false, when,
          Bus.M.pure_run]
        exact hR.refl w
      | true =>
        have hseen : w.chip.panel_seen = true := by
          rw [← Bool.not_eq_false]
          exact fun h => hfirst ⟨hshut, husb, h⟩
        simp only [Bus.M.bind_run, Bus.M.attempt, Bus.M.recv, husb, if_true, when, Bus.M.get_run, hseen]
        exact decode_announces p { w with usb := Bus.shift w.usb 1 }
    unfold babyfacePanelWork
    rw [Bus.M.bind_of_ok (Bus.M.get_run w)]
    cases hshut : w.chip.shutdown with
    | true => exact hR.refl w
    | false => exact hR.bind_at (htick hshut) fun _ => htime

/-! ## Every operation -/

/-- What the driver does for a mixer or for the panel. -/
inductive Operation where
  /-- A put, at a time. -/
  | put (k : Clock) (x : ElemValue) (ctl : Ctl)
  /-- A poll of the panel. -/
  | poll (p : Poll) (t : ℤ)
  /-- A start of the panel. -/
  | start (jiffies : ℤ)

/-- The world after an operation. -/
def Operation.run : Operation → World → World
  | .put k x ctl, w => (bfPut k x ctl w).2
  | .poll p t, w => (babyfacePanelWork p t w).2
  | .start jiffies, w => { w with chip := babyfacePanelStart jiffies w.chip }

/-- The control that is put. -/
def Operation.own : Operation → Option Ctl
  | .put _ _ ctl => some ctl
  | _ => none

/-- The controls that an operation notifies. -/
def Operation.notified (op : Operation) (w : World) : List Ctl := (op.run w).notes.drop w.notes.length

/-- The operations that notify too little: a first snapshot with other readings. -/
def Operation.Silent (op : Operation) (w : World) : Prop :=
  match op with
  | .poll p _ => FirstSnapshot w ∧ SnapshotDiffers p.st w.chip
  | _ => False

/-- In every reachable state an operation notifies each control, other than its own, that reads
otherwise after it, exactly when it is not a first snapshot after a start of the panel that differs
from the cached readings. Any of its transfers may fail. -/
theorem announced_iff {w : World} (h : Reachable w) (op : Operation) :
    (∀ g, op.own ≠ some g → bfGet (op.run w).chip g ≠ bfGet w.chip g → g ∈ op.notified w) ↔
      ¬ op.Silent w := by
  cases op with
  -- A put notifies what it changes besides its own control.
  | put k x ctl =>
    refine iff_of_true (fun g ho hne => ?_) fun hs => hs
    exact (bfPut_announces k x ctl h.oneLoopback).mem_drop ho hne
  | start jiffies =>
    refine iff_of_true (fun g _ hne => absurd ?_ hne) fun hs => hs
    cases g <;> rfl
  | poll p t =>
    obtain ⟨hfirst, hn, hg⟩ | ⟨hfirst, ha⟩ := babyfacePanelWork_announces p t w
    -- A first snapshot notifies nothing, so nothing may have changed.
    · have hnone : (Operation.poll p t).notified w = [] := by
        show List.drop w.notes.length (babyfacePanelWork p t w).2.notes = []
        rw [hn, List.drop_length]
      have hshow : ∀ g, bfGet ((Operation.poll p t).run w).chip g = bfGet (snapshot p.st w.chip) g := hg
      rw [hnone]
      simp only [hshow, List.not_mem_nil, imp_false, not_not]
      constructor
      · rintro hsame ⟨-, hdiff⟩
        obtain ⟨g, hne⟩ := (bfGet_snapshot_iff p.st w.chip).mpr hdiff
        exact hne (hsame g fun he => by cases he)
      · intro hs g _
        by_contra hne
        exact hs ⟨hfirst, (bfGet_snapshot_iff p.st w.chip).mp ⟨g, hne⟩⟩
    -- Any other poll notifies all that it changes.
    · exact iff_of_true (fun g ho hne => ha.mem_drop ho hne) fun hs => hfirst hs.1

/-- A put of a trim on a fresh card notifies the other input of the pair. -/
theorem announced_iff_trim : Ctl.trim 1 ∈
    (Operation.put clock0 { value := fun _ => 3 } (.trim 0)).notified (freshCardWith fun _ => true) :=
  (announced_iff (freshCardWith_reachable fun _ => true)
    (.put clock0 { value := fun _ => 3 } (.trim 0))).mpr (fun hs => hs) (.trim 1) (by decide)
    (by decide +kernel)

/-- The first poll of a fresh card, which shows that MIX is engaged, notifies nothing. -/
theorem snapshot_silent : ∃ w op g, Reachable w ∧ Operation.own op ≠ some g ∧
    bfGet (op.run w).chip g ≠ bfGet w.chip g ∧ g ∉ op.notified w :=
  ⟨freshCardWith fun _ => true, .poll ⟨![0x80, 0, 0x40, 0], 0, 0⟩ 0, .panelMix,
    freshCardWith_reachable _, by decide, by decide +kernel, by decide +kernel⟩

end BabyfacePro
