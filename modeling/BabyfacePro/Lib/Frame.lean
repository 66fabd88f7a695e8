import BabyfacePro.Lib.Bus

/-!
# Frames and triples of driver routines

Two ways to bound a routine without saying all that it does, for every outcome of its transfers.
`Frames nf R T X m` says that the state before and the state after are related by `R`, that only
transfers in `T`, seen through `nf`, reach the device, and that only errors in `X` are returned; with
no error in `X` the routine always returns a value. `Returns P m Q` is a total triple: from a state in `P` the routine
returns a value without an error, and value and state are in `Q`.
-/

namespace Bus

open M

variable {σ ξ ν ζ ε α β γ : Type}

/-! ## Frames -/

/-- A relation between the states before and after that routines in sequence keep. -/
structure Framing (R : σ → σ → Prop) : Prop where
  /-- Doing nothing is in the relation. -/
  refl : ∀ s, R s s
  /-- The relation composes. -/
  trans : ∀ {s t u}, R s t → R t u → R s u

/-- A part of the state is left alone. -/
theorem Framing.view (v : σ → β) : Framing fun s t => v t = v s :=
  ⟨fun _ => rfl, fun h h' => h'.trans h⟩

/-- A property of the state is kept. -/
theorem Framing.keeps (P : σ → Prop) : Framing fun s t => P s → P t :=
  ⟨fun _ h => h, fun h h' hp => h' (h hp)⟩

/-- Whatever becomes of its transfers, `m` relates the states before and after by `R`, every transfer
that it makes is in `T`, seen through `nf`, an error that it returns is in `X`, and it takes the
outcomes in their order. -/
structure Frames (nf : ξ → ζ) (R : σ → σ → Prop) (T : ζ → Prop) (X : ε → Prop)
    (m : M σ ξ ν ε α) : Prop where
  /-- The states before and after. -/
  state : ∀ w, R w.chip (m w).2.chip
  /-- The transfers. -/
  wire : ∀ w, ∃ vs, (m w).2.wire.map nf = w.wire.map nf ++ vs ∧ ∀ x ∈ vs, T x
  /-- The errors. -/
  error : ∀ w e, (m w).1 = .error e → X e
  /-- The outcomes left are those of the transfers not yet made. -/
  usb : ∀ w, ∃ n, (m w).2.usb = shift w.usb n

/-- A routine with no error to return returns a value. -/
theorem Frames.run_ok {R : σ → σ → Prop} {nf : ξ → ζ} {T : ζ → Prop} {m : M σ ξ ν ε α}
    (h : Frames nf R T (fun _ => False) m) (w : World σ ξ ν) : ∃ a w', m w = (.ok a, w') := by
  have he := h.error w
  cases hm : m w with
  | mk r w' =>
    rw [hm] at he
    cases r with
    | ok a => exact ⟨a, w', rfl⟩
    | error e => exact (he e rfl).elim

/-- With no failure to come before a routine, there is none to come after it. -/
theorem Frames.live {R : σ → σ → Prop} {nf : ξ → ζ} {T : ζ → Prop} {X : ε → Prop} {m : M σ ξ ν ε α}
    (h : Frames nf R T X m) {w : World σ ξ ν} (hl : ∀ i, w.usb i = true) (i : ℕ) :
    (m w).2.usb i = true := by
  obtain ⟨n, hn⟩ := h.usb w
  rw [hn]
  exact hl _

/-- After a routine with no error to return the next one runs. -/
theorem Frames.then_run {R : σ → σ → Prop} {nf : ξ → ζ} {T : ζ → Prop} {m : M σ ξ ν ε Unit}
    (h : Frames nf R T (fun _ => False) m) (k : M σ ξ ν ε β) (w : World σ ξ ν) :
    (do m; k) w = k (m w).2 := by
  obtain ⟨a, w', hm⟩ := h.run_ok w
  rw [bind_of_ok hm, hm]

namespace Framing

variable {R : σ → σ → Prop} {nf : ξ → ζ} {T : ζ → Prop} {X Y : ε → Prop}

/-- A routine that makes no transfer. -/
theorem silent (_ : Framing R) {m : M σ ξ ν ε α} (n : ℕ) (h : ∀ w, R w.chip (m w).2.chip)
    (hw : ∀ w, (m w).2.wire = w.wire) (hu : ∀ w, (m w).2.usb = shift w.usb n)
    (he : ∀ w e, (m w).1 = .error e → X e) : Frames nf R T X m where
  state := h
  wire w := ⟨[], by rw [hw, List.append_nil], by simp⟩
  error := he
  usb w := ⟨n, hu w⟩

/-- A value changes nothing. -/
theorem pure (hR : Framing R) (a : α) : Frames nf R T X (pure a : M σ ξ ν ε α) :=
  hR.silent 0 (fun _ => hR.refl _) (fun _ => rfl) (by simp) fun _ _ he => by cases he

/-- Reading the state changes nothing. -/
theorem get (hR : Framing R) : Frames nf R T X (get : M σ ξ ν ε σ) :=
  hR.silent 0 (fun _ => hR.refl _) (fun _ => rfl) (by simp) fun _ _ he => by cases he

/-- A note is no change of the state. -/
theorem notify (hR : Framing R) (n : ν) : Frames nf R T X (notify n : M σ ξ ν ε Unit) :=
  hR.silent 0 (fun _ => hR.refl _) (fun _ => rfl) (by simp) fun _ _ he => by cases he

/-- A change of the state that is within the frame. -/
theorem modify (hR : Framing R) {f : σ → σ} (h : ∀ s, R s (f s)) :
    Frames nf R T X (modify f : M σ ξ ν ε Unit) :=
  hR.silent 0 (fun _ => h _) (fun _ => rfl) (by simp) fun _ _ he => by cases he

/-- An error that the frame allows. -/
theorem throw (hR : Framing R) {e : ε} (h : X e) : Frames nf R T X (throw e : M σ ξ ν ε α) :=
  hR.silent 0 (fun _ => hR.refl _) (fun _ => rfl) (by simp) fun _ _ he => by cases he; exact h

/-- A transfer that reads, and may fail. -/
theorem recv (hR : Framing R) {e : ε} (h : X e) (a : α) :
    Frames nf R T X (recv e a : M σ ξ ν ε α) :=
  hR.silent 1 (fun _ => hR.refl _) (fun _ => rfl) (fun _ => rfl) fun w e' he => by
    cases hu : w.usb 0 <;> simp only [M.recv, hu, if_true, Bool.false_eq_true, if_false] at he <;>
      cases he
    exact h

/-- A transfer that the frame allows. -/
theorem send (hR : Framing R) {e : ε} (h : X e) {x : ξ} (hx : T (nf x)) :
    Frames nf R T X (send e x : M σ ξ ν ε Unit) where
  state w := by cases hu : w.usb 0 <;> simpa [M.send, hu] using hR.refl _
  wire w := by
    cases hu : w.usb 0 with
    | true => exact ⟨[nf x], by simp [M.send, hu], by simpa using hx⟩
    | false => exact ⟨[], by simp [M.send, hu], by simp⟩
  error w e' he := by
    cases hu : w.usb 0 <;> simp only [M.send, hu, if_true, Bool.false_eq_true, if_false] at he <;>
      cases he
    exact h
  usb w := ⟨1, by cases hu : w.usb 0 <;> simp [M.send, hu]⟩

/-- Two routines in sequence. -/
theorem bind (hR : Framing R) {m : M σ ξ ν ε α} {k : α → M σ ξ ν ε β} (h : Frames nf R T X m)
    (hk : ∀ a, Frames nf R T X (k a)) : Frames nf R T X (m >>= k) := by
  -- A failed first routine is the whole of the sequence.
  have key : ∀ w, (∃ e w₁, m w = (.error e, w₁) ∧ (m >>= k) w = (.error e, w₁)) ∨
      ∃ a w₁, m w = (.ok a, w₁) ∧ (m >>= k) w = k a w₁ := fun w => by
    cases hm : m w with
    | mk r w₁ =>
      cases r with
      | error e => exact .inl ⟨e, w₁, rfl, bind_of_error hm k⟩
      | ok a => exact .inr ⟨a, w₁, rfl, bind_of_ok hm k⟩
  refine ⟨fun w => ?_, fun w => ?_, fun w e he => ?_, fun w => ?_⟩
  · have hs := h.state w
    obtain ⟨e, w₁, hm, hb⟩ | ⟨a, w₁, hm, hb⟩ := key w <;> rw [hb] <;> rw [hm] at hs
    · exact hs
    · exact hR.trans hs ((hk a).state w₁)
  · obtain ⟨vs, hw, hT⟩ := h.wire w
    obtain ⟨e, w₁, hm, hb⟩ | ⟨a, w₁, hm, hb⟩ := key w <;> rw [hb] <;> rw [hm] at hw
    · exact ⟨vs, hw, hT⟩
    · obtain ⟨vs', hw', hT'⟩ := (hk a).wire w₁
      exact ⟨vs ++ vs', by rw [hw', hw, List.append_assoc], fun x hx =>
        (List.mem_append.mp hx).elim (hT x) (hT' x)⟩
  · obtain ⟨e', w₁, hm, hb⟩ | ⟨a, w₁, hm, hb⟩ := key w <;> rw [hb] at he
    · cases he
      exact h.error w e (by rw [hm])
    · exact (hk a).error w₁ e he
  · obtain ⟨n, hu⟩ := h.usb w
    obtain ⟨e', w₁, hm, hb⟩ | ⟨a, w₁, hm, hb⟩ := key w <;> rw [hb] <;> rw [hm] at hu
    · exact ⟨n, hu⟩
    · obtain ⟨n', hu'⟩ := (hk a).usb w₁
      exact ⟨n + n', by rw [hu', hu, shift_shift]⟩

/-- A routine whose failure is ignored. -/
theorem attempt (_ : Framing R) {m : M σ ξ ν ε α} (h : Frames nf R T Y m) :
    Frames nf R T X (attempt m) := by
  refine ⟨fun w => ?_, fun w => ?_, fun w e he => ?_, fun w => ?_⟩ <;>
    obtain ⟨b, hb⟩ := attempt_run m w
  · rw [hb]; exact h.state w
  · rw [hb]; exact h.wire w
  · rw [hb] at he; cases he
  · rw [hb]; exact h.usb w

/-- A result that is dropped takes its error with it. -/
theorem ignore (hR : Framing R) {m : M σ ξ ν ε α} (h : Frames nf R T Y m) : Frames nf R T X (ignore m) :=
  hR.bind (hR.attempt h) fun _ => hR.pure ()

/-- A failure that the routine undoes. -/
theorem rollback (hR : Framing R) {m : M σ ξ ν ε α} {undo : σ → σ} (h : Frames nf R T X m)
    (hu : ∀ s, R s (undo s)) : Frames nf R T X (rollback m undo) := by
  have key : ∀ w, ∃ c, R (m w).2.chip c ∧
      M.rollback m undo w = ((m w).1, { (m w).2 with chip := c }) := fun w => by
    unfold M.rollback
    cases m w with
    | mk r w₁ =>
      cases r with
      | ok a => exact ⟨_, hR.refl _, rfl⟩
      | error e => exact ⟨_, hu _, rfl⟩
  refine ⟨fun w => ?_, fun w => ?_, fun w e he => ?_, fun w => ?_⟩ <;> obtain ⟨c, hc, hk⟩ := key w
  · rw [hk]; exact hR.trans (h.state w) hc
  · rw [hk]; exact h.wire w
  · rw [hk] at he; exact h.error w e he
  · rw [hk]; exact h.usb w

/-- Every item of a loop is within the frame. -/
theorem each (hR : Framing R) {f : γ → M σ ξ ν ε Unit} (l : List γ)
    (h : ∀ a ∈ l, Frames nf R T X (f a)) : Frames nf R T X (each l f) := by
  induction l with
  | nil => exact hR.pure ()
  | cons a l ih =>
    exact hR.bind (h a List.mem_cons_self) fun _ => ih fun b hb => h b (List.mem_cons_of_mem a hb)

/-- Both branches are within the frame. -/
theorem ite (_ : Framing R) {m k : M σ ξ ν ε α} (p : Prop) [Decidable p]
    (h : p → Frames nf R T X m) (hk : ¬ p → Frames nf R T X k) :
    Frames nf R T X (if p then m else k) := by
  by_cases hp : p
  · simpa only [hp, if_true] using h hp
  · simpa only [hp, if_false] using hk hp

/-- What a test guards is within the frame. -/
theorem when (hR : Framing R) {m : M σ ξ ν ε Unit} (p : Bool) (h : p = true → Frames nf R T X m) :
    Frames nf R T X (when p m) := by
  cases p
  · exact hR.pure ()
  · exact h rfl

end Framing

/-- A frame may be widened. -/
theorem Frames.mono {R R' : σ → σ → Prop} {nf : ξ → ζ} {T T' : ζ → Prop} {X Y : ε → Prop} {m : M σ ξ ν ε α}
    (h : Frames nf R T X m) (hR : ∀ s t, R s t → R' s t) (hT : ∀ x, T x → T' x)
    (hX : ∀ e, X e → Y e) : Frames nf R' T' Y m where
  state w := hR _ _ (h.state w)
  wire w := let ⟨vs, hw, ht⟩ := h.wire w; ⟨vs, hw, fun x hx => hT x (ht x hx)⟩
  error w e he := hX e (h.error w e he)
  usb := h.usb

/-- A relation that sees the states through `q` only. -/
def Respects (q : σ → β) (R : σ → σ → Prop) : Prop :=
  ∀ s s' t t', q s' = q s → q t' = q t → R s t → R s' t'

/-- A routine that only sends. -/
theorem Sends.frames {q : σ → β} {nf : ξ → ζ} {e : ε} {m : M σ ξ ν ε Unit} {ws : β → List ζ}
    (h : Sends q nf e m ws) {R : σ → σ → Prop} {T : ζ → Prop} {X : ε → Prop} (hR : Framing R)
    (hq : Respects q R) (hT : ∀ b, ∀ x ∈ ws b, T x) (hX : X e) : Frames nf R T X m where
  state w := hq _ _ _ _ rfl (h w).2.1 (hR.refl w.chip)
  wire w := ⟨_, (h w).2.2.1, fun x hx => hT _ x (List.mem_of_mem_take hx)⟩
  error w e' he := by
    have hr := (h w).1
    rw [he] at hr
    split at hr <;> cases hr
    exact hX
  usb w := ⟨_, (h w).2.2.2.2⟩

/-! ## Triples -/

/-- From a state in `P`, `m` returns a value, and value and state are in `Q`. -/
def Returns (P : σ → Prop) (m : M σ ξ ν ε α) (Q : α → σ → Prop) : Prop :=
  ∀ w, P w.chip → ∃ a w', m w = (.ok a, w') ∧ Q a w'.chip

/-- A routine with no error to return keeps what its frame keeps. -/
theorem Frames.returns {P : σ → Prop} {nf : ξ → ζ} {T : ζ → Prop} {m : M σ ξ ν ε α}
    (h : Frames nf (fun s t => P s → P t) T (fun _ => False) m) : Returns P m fun _ => P :=
  fun w hp => by
    obtain ⟨a, w', hm⟩ := h.run_ok w
    have hs := h.state w hp
    rw [hm] at hs
    exact ⟨a, w', hm, hs⟩

namespace Returns

variable {P : σ → Prop} {Q : α → σ → Prop} {S : β → σ → Prop}

/-- A value that meets the postcondition at once. -/
theorem pure {a : α} (h : ∀ s, P s → Q a s) : Returns P (pure a : M σ ξ ν ε α) Q :=
  fun _ hp => ⟨a, _, rfl, h _ hp⟩

/-- The state that is read is the one that there is. -/
theorem get : Returns P (M.get : M σ ξ ν ε σ) fun a s => P s ∧ a = s := fun _ h =>
  ⟨_, _, rfl, h, rfl⟩

/-- A change of the state. -/
theorem modify {Q : σ → Prop} {f : σ → σ} (h : ∀ s, P s → Q (f s)) :
    Returns P (M.modify f : M σ ξ ν ε Unit) fun _ => Q := fun _ hp => ⟨(), _, rfl, h _ hp⟩

/-- One computation after another. -/
theorem bind {m : M σ ξ ν ε α} {k : α → M σ ξ ν ε β} (h : Returns P m Q)
    (hk : ∀ a, Returns (Q a) (k a) S) : Returns P (m >>= k) S := fun w hp => by
  obtain ⟨a, w₁, h₁, hq⟩ := h w hp
  obtain ⟨b, w₂, h₂, hs⟩ := hk a w₁ hq
  exact ⟨b, w₂, by rw [bind_of_ok h₁, h₂], hs⟩

/-- Both branches. -/
theorem ite {m k : M σ ξ ν ε α} (p : Prop) [Decidable p] (h : p → Returns P m Q)
    (hk : ¬ p → Returns P k Q) : Returns P (if p then m else k) Q := by
  by_cases hp : p
  · simpa only [hp, if_true] using h hp
  · simpa only [hp, if_false] using hk hp

/-- What a test guards keeps the precondition. -/
theorem when {m : M σ ξ ν ε Unit} (p : Bool) (h : p = true → Returns P m fun _ => P) :
    Returns P (M.when p m) fun _ => P := by
  cases p
  · exact pure fun _ => id
  · exact h rfl

/-- A triple may be weakened. -/
theorem weaken {P' : σ → Prop} {Q' : α → σ → Prop} {m : M σ ξ ν ε α} (h : Returns P m Q)
    (hP : ∀ s, P' s → P s) (hQ : ∀ a s, Q a s → Q' a s) : Returns P' m Q' := fun w hp => by
  obtain ⟨a, w', hm, hq⟩ := h w (hP _ hp)
  exact ⟨a, w', hm, hQ _ _ hq⟩

end Returns

/-! ## Routines without a failure to come -/

/-- With no failure to come, `m` returns a value from a state in `P`, and stays in it. -/
def Lives (P : σ → Prop) (m : M σ ξ ν ε α) : Prop :=
  ∀ w, (∀ i, w.usb i = true) → P w.chip →
    ∃ a w', m w = (.ok a, w') ∧ P w'.chip ∧ ∀ i, w'.usb i = true

namespace Lives

variable {P : σ → Prop}

/-- A change of the state that keeps the invariant. -/
theorem modify {f : σ → σ} (h : ∀ s, P s → P (f s)) :
    Lives P (M.modify f : M σ ξ ν ε Unit) := fun w hl hw =>
  ⟨(), { w with chip := f w.chip }, rfl, h _ hw, hl⟩

/-- A value leaves the invariant alone. -/
theorem pure (a : α) : Lives P (pure a : M σ ξ ν ε α) := fun w hl hw => ⟨a, w, rfl, hw, hl⟩

/-- With no failed transfer something is received. -/
theorem recv (e : ε) (a : α) : Lives P (M.recv e a : M σ ξ ν ε α) := fun w hl hw =>
  ⟨a, { w with usb := shift w.usb 1 }, by simp only [M.recv, hl 0, if_true], hw, fun _ => hl _⟩

/-- One computation after another. -/
theorem bind {m : M σ ξ ν ε α} {k : α → M σ ξ ν ε β} (h : Lives P m) (hk : ∀ a, Lives P (k a)) :
    Lives P (m >>= k) := fun w hl hw => by
  obtain ⟨a, w₁, hm, hw₁, hl₁⟩ := h w hl hw
  rw [bind_of_ok hm]
  exact hk a w₁ hl₁ hw₁

/-- A routine that reads the state first. -/
theorem get {k : σ → M σ ξ ν ε β} (hk : ∀ s, P s → Lives P (k s)) :
    Lives P (M.get >>= k) := fun w hl hw => by
  rw [bind_of_ok (M.get_run w)]
  exact hk w.chip hw w hl hw

/-- What a test guards. -/
theorem when {m : M σ ξ ν ε Unit} (p : Bool) (h : p = true → Lives P m) : Lives P (M.when p m) := by
  cases p
  · exact pure ()
  · exact h rfl

/-- Every item of a loop. -/
theorem each {f : γ → M σ ξ ν ε Unit} (l : List γ) (h : ∀ a ∈ l, Lives P (f a)) :
    Lives P (M.each l f) := by
  induction l with
  | nil => exact pure ()
  | cons a l ih =>
    exact (h a List.mem_cons_self).bind fun _ => ih fun b hb => h b (List.mem_cons_of_mem a hb)

/-- Nothing is undone without a failure. -/
theorem rollback {m : M σ ξ ν ε α} (undo : σ → σ) (h : Lives P m) :
    Lives P (M.rollback m undo) := fun w hl hw => by
  obtain ⟨a, w', hm, hw', hl'⟩ := h w hl hw
  exact ⟨a, w', M.rollback_of_ok hm undo, hw', hl'⟩

end Lives

/-- A routine that only sends, where `P` does not see what the transfers count. -/
theorem Sends.lives {q : σ → β} {nf : ξ → ζ} {e : ε} {m : M σ ξ ν ε Unit} {ws : β → List ζ}
    {P : σ → Prop} (h : Sends q nf e m ws) (hP : ∀ s t, q t = q s → P s → P t) : Lives P m :=
  fun w hl hw => by
    obtain ⟨w', hm, hsent, hl'⟩ := h.run_live hl
    exact ⟨(), w', hm, hP _ _ hsent.chip hw, hl'⟩

/-! ## A part of the state -/

section Zoom

variable {τ : Type} (view : τ → σ) (put : σ → τ → τ)

/-- The part of the state that `view` reads, in the world of the whole. -/
def World.zoom (w : World τ ξ ν) : World σ ξ ν := ⟨view w.chip, w.wire, w.notes, w.usb⟩

/-- A routine on a part of the state, read by `view` and written back by `put`. -/
def M.zoom (m : M σ ξ ν ε α) : M τ ξ ν ε α := fun w =>
  let r := m (w.zoom view)
  (r.1, ⟨put r.2.chip w.chip, r.2.wire, r.2.notes, r.2.usb⟩)

variable {view put}

/-- What a routine does to its part, and to nothing else of the whole. -/
theorem Frames.zoom {R : σ → σ → Prop} {nf : ξ → ζ} {T : ζ → Prop} {X : ε → Prop}
    {m : M σ ξ ν ε α} (h : Frames nf R T X m) (hview : ∀ s t, view (put s t) = s) :
    Frames nf (fun t t' => R (view t) (view t') ∧ t' = put (view t') t) T X
      (m.zoom view put) where
  state w := by
    refine ⟨?_, ?_⟩
    · have hpart : view (m.zoom view put w).2.chip = (m (w.zoom view)).2.chip := hview _ _
      rw [hpart]
      exact h.state (w.zoom view)
    · simp only [M.zoom, hview]
  wire w := h.wire (w.zoom view)
  error w e he := h.error (w.zoom view) e he
  usb w := h.usb (w.zoom view)

/-- A computation on a part of the state goes through on the whole. -/
theorem Lives.zoom {P : σ → Prop} {m : M σ ξ ν ε α} (h : Lives P m)
    (hview : ∀ s t, view (put s t) = s) : Lives (fun t => P (view t)) (m.zoom view put) :=
  fun w hl hw => by
    obtain ⟨a, w', hm, hw', hl'⟩ := h (w.zoom view) hl hw
    refine ⟨a, ⟨put w'.chip w.chip, w'.wire, w'.notes, w'.usb⟩, ?_, ?_, hl'⟩
    · simp only [M.zoom, hm]
    · show P (view (put w'.chip w.chip))
      rwa [hview]

end Zoom

end Bus
