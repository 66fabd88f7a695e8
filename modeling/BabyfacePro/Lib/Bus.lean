import Mathlib.Data.List.Basic
import Mathlib.Tactic.Common

/-!
# Driver routines over a bus whose transfers can fail

A routine of type `M σ ξ ν ε α` works on a `World`: the driver's own state `chip : σ`, the transfers
that reached the device so far (`wire`), the notifications it raised (`notes`), and the outcomes of
the transfers still to come (`usb`, `true` for success). A failed transfer raises an error; the
routine either stops there, as C code does with `if (ret < 0) return ret;`, or goes on
(`attempt`). State changes made before an error stay, unless the routine undoes them (`rollback`).

`Sends` is the specification of a routine that only sends: which transfers, in which order, and that
it stops at the first that fails. It composes over sequencing, branches, and loops, so a caller
never looks inside the routine again.
-/

namespace Bus

/-- What a driver routine works on: the driver's state, the transfers that reached the device, the
notifications raised, and the outcomes of the transfers to come. -/
structure World (σ ξ ν : Type) where
  /-- The driver's own state. -/
  chip : σ
  /-- The transfers that reached the device, oldest first. -/
  wire : List ξ
  /-- The notifications raised, oldest first. -/
  notes : List ν
  /-- Whether each of the coming transfers succeeds. -/
  usb : ℕ → Bool

variable {σ ξ ν ζ ε α β γ : Type}

/-- The outcomes left once `n` transfers have been made. -/
def shift (usb : ℕ → Bool) (n : ℕ) : ℕ → Bool := fun i => usb (n + i)

/-- No transfer has gone. -/
@[simp] theorem shift_zero (usb : ℕ → Bool) : shift usb 0 = usb := by
  funext i; simp [shift]

/-- `m` transfers, and `n` after them. -/
@[simp] theorem shift_shift (usb : ℕ → Bool) (m n : ℕ) :
    shift (shift usb m) n = shift usb (m + n) := by
  funext i; simp [shift, Nat.add_assoc]

/-- A driver routine. -/
def M (σ ξ ν ε α : Type) : Type := World σ ξ ν → Except ε α × World σ ξ ν

namespace M

/-- A computation that fails stops there; its world is what the failure has left. -/
instance : Monad (M σ ξ ν ε) where
  pure a := fun w => (.ok a, w)
  bind m f := fun w =>
    match m w with
    | (.ok a, w') => f a w'
    | (.error e, w') => (.error e, w')

/-- A value costs no transfer and changes nothing. -/
@[simp] theorem pure_run (a : α) (w : World σ ξ ν) : (pure a : M σ ξ ν ε α) w = (.ok a, w) := rfl

/-- What follows runs in the world of what came before, unless that has failed. -/
theorem bind_run (m : M σ ξ ν ε α) (f : α → M σ ξ ν ε β) (w : World σ ξ ν) :
    (m >>= f) w =
      match m w with
      | (.ok a, w') => f a w'
      | (.error e, w') => (.error e, w') := rfl

/-- After a computation that succeeds comes what follows it. -/
theorem bind_of_ok {m : M σ ξ ν ε α} {w w' : World σ ξ ν} {a : α} (h : m w = (.ok a, w'))
    (f : α → M σ ξ ν ε β) : (m >>= f) w = f a w' := by rw [bind_run, h]

/-- A failure is the failure of the whole. -/
theorem bind_of_error {m : M σ ξ ν ε α} {w w' : World σ ξ ν} {e : ε} (h : m w = (.error e, w'))
    (f : α → M σ ξ ν ε β) : (m >>= f) w = (.error e, w') := by rw [bind_run, h]

/-- A sequence that returned a value got through its first routine. -/
theorem bind_eq_ok {m : M σ ξ ν ε α} {f : α → M σ ξ ν ε β} {w w' : World σ ξ ν} {b : β}
    (h : (m >>= f) w = (.ok b, w')) : ∃ a w₁, m w = (.ok a, w₁) ∧ f a w₁ = (.ok b, w') := by
  rw [bind_run] at h
  split at h
  · exact ⟨_, _, ‹_›, h⟩
  · cases h

/-- The laws of a state monad with errors. -/
instance : LawfulMonad (M σ ξ ν ε) := LawfulMonad.mk' (M σ ξ ν ε)
  (fun m => by
    funext w
    show (m >>= fun a => pure (id a)) w = m w
    rw [bind_run]
    rcases m w with ⟨_ | _, _⟩ <;> rfl)
  (fun _ _ => rfl)
  (fun m f g => by
    funext w
    simp only [bind_run]
    rcases m w with ⟨_ | _, _⟩ <;> rfl)

/-- The driver's state. -/
def get : M σ ξ ν ε σ := fun w => (.ok w.chip, w)

/-- A change of the driver's state. -/
def modify (f : σ → σ) : M σ ξ ν ε Unit := fun w => (.ok (), { w with chip := f w.chip })

/-- An error return. -/
def throw (e : ε) : M σ ξ ν ε α := fun w => (.error e, w)

/-- One transfer, with the error `e` when it fails. -/
def send (e : ε) (x : ξ) : M σ ξ ν ε Unit := fun w =>
  if w.usb 0 then (.ok (), { w with wire := w.wire ++ [x], usb := shift w.usb 1 })
  else (.error e, { w with usb := shift w.usb 1 })

/-- A transfer from the device: the driver gets `a`, or the error `e`. -/
def recv (e : ε) (a : α) : M σ ξ ν ε α := fun w =>
  (if w.usb 0 then .ok a else .error e, { w with usb := shift w.usb 1 })

/-- A notification. -/
def notify (n : ν) : M σ ξ ν ε Unit := fun w => (.ok (), { w with notes := w.notes ++ [n] })

/-- A routine whose failure is ignored: whether it succeeded. -/
def attempt (m : M σ ξ ν ε α) : M σ ξ ν ε Bool := fun w =>
  match m w with
  | (.ok _, w') => (.ok true, w')
  | (.error _, w') => (.ok false, w')

/-- A routine whose failure is ignored altogether. -/
def ignore (m : M σ ξ ν ε α) : M σ ξ ν ε Unit := do
  let _ ← attempt m

/-- A routine after whose failure the driver's state is put right, from the state `old` before. -/
def rollback (m : M σ ξ ν ε α) (undo : σ → σ) : M σ ξ ν ε α := fun w =>
  match m w with
  | (.ok a, w') => (.ok a, w')
  | (.error e, w') => (.error e, { w' with chip := undo w'.chip })

/-- A loop over a list, which an error leaves. -/
def each (l : List β) (f : β → M σ ξ ν ε Unit) : M σ ξ ν ε Unit :=
  match l with
  | [] => pure ()
  | b :: l => do f b; each l f

/-- A routine that runs if a condition holds. -/
def when (p : Bool) (m : M σ ξ ν ε Unit) : M σ ξ ν ε Unit := if p then m else pure ()

/-- The state is read, and left as it is. -/
@[simp] theorem get_run (w : World σ ξ ν) : (get : M σ ξ ν ε σ) w = (.ok w.chip, w) := rfl

/-- The state is changed, and nothing is sent. -/
@[simp] theorem modify_run (f : σ → σ) (w : World σ ξ ν) :
    (modify f : M σ ξ ν ε Unit) w = (.ok (), { w with chip := f w.chip }) := rfl

/-- An error that no transfer is behind changes nothing. -/
@[simp] theorem throw_run (e : ε) (w : World σ ξ ν) :
    (throw e : M σ ξ ν ε α) w = (.error e, w) := rfl

/-- A note is added to those that were made. -/
@[simp] theorem notify_run (n : ν) (w : World σ ξ ν) :
    (notify n : M σ ξ ν ε Unit) w = (.ok (), { w with notes := w.notes ++ [n] }) := rfl

/-- A test that does not depend on the world is taken out of the run. -/
theorem ite_run (p : Prop) [Decidable p] (m k : M σ ξ ν ε α) (w : World σ ξ ν) :
    (if p then m else k) w = if p then m w else k w := by
  split <;> rfl

/-- A routine whose failure is ignored returns. -/
theorem attempt_run (m : M σ ξ ν ε α) (w : World σ ξ ν) :
    ∃ b, (attempt m : M σ ξ ν ε Bool) w = (.ok b, (m w).2) := by
  unfold attempt
  rcases m w with ⟨_ | _, _⟩ <;> exact ⟨_, rfl⟩

/-- There is nothing to roll back. -/
theorem rollback_of_ok {m : M σ ξ ν ε α} {w w' : World σ ξ ν} {a : α} (h : m w = (.ok a, w'))
    (undo : σ → σ) : rollback m undo w = (.ok a, w') := by
  simp only [rollback, h]

/-- What a failure has left of the state is rolled back. -/
theorem rollback_of_error {m : M σ ξ ν ε α} {w w' : World σ ξ ν} {e : ε}
    (h : m w = (.error e, w')) (undo : σ → σ) :
    rollback m undo w = (.error e, { w' with chip := undo w'.chip }) := by
  simp only [rollback, h]

/-- There is nothing to do. -/
@[simp] theorem each_nil (f : β → M σ ξ ν ε Unit) : each [] f = pure () := rfl

/-- The first of a list, then the others. -/
theorem each_cons (b : β) (l : List β) (f : β → M σ ξ ν ε Unit) :
    each (b :: l) f = (do f b; each l f) := rfl

end M

/-! ## How far a list of transfers gets -/

/-- How many of the next `n` transfers reach the device, when the first failure ends them. -/
def delivered (usb : ℕ → Bool) : ℕ → ℕ
  | 0 => 0
  | n + 1 => if usb 0 then delivered (shift usb 1) n + 1 else 0

/-- Of no transfers none is delivered. -/
@[simp] theorem delivered_zero (usb : ℕ → Bool) : delivered usb 0 = 0 := rfl

/-- At most all of the transfers are delivered. -/
theorem delivered_le (usb : ℕ → Bool) (n : ℕ) : delivered usb n ≤ n := by
  induction n generalizing usb with
  | zero => exact Nat.le_refl _
  | succ n ih =>
    rw [delivered]
    split
    · exact Nat.succ_le_succ (ih _)
    · exact Nat.zero_le _

/-- Two runs of transfers: the second starts only once the first is through. -/
theorem delivered_add (usb : ℕ → Bool) (m n : ℕ) :
    delivered usb (m + n) =
      if delivered usb m = m then m + delivered (shift usb m) n else delivered usb m := by
  induction m generalizing usb with
  | zero => simp
  | succ m ih =>
    rw [Nat.add_right_comm, delivered, delivered, ih]
    by_cases h0 : usb 0
    · simp only [h0, if_true, Nat.add_right_cancel_iff, shift_shift]
      rw [Nat.add_comm 1 m]
      split <;> omega
    · simp [h0]

/-- With no failure to come, everything is delivered. -/
theorem delivered_of_live {usb : ℕ → Bool} (h : ∀ i, usb i = true) (n : ℕ) :
    delivered usb n = n := by
  induction n generalizing usb with
  | zero => rfl
  | succ n ih => rw [delivered, h 0, if_pos rfl, @ih (shift usb 1) fun i => h _]

/-! ## Routines that only send -/

/-- `m` sends the transfers `ws`, seen through `nf`, and nothing else: it stops with the error `e` at
the first that fails, and keeps the part `q` of the driver's state, on which `ws` depends. -/
def Sends (q : σ → β) (nf : ξ → ζ) (e : ε) (m : M σ ξ ν ε Unit) (ws : β → List ζ) : Prop :=
  ∀ w : World σ ξ ν,
    let n := (ws (q w.chip)).length
    let k := delivered w.usb n
    (m w).1 = (if k = n then .ok () else .error e) ∧ q (m w).2.chip = q w.chip ∧
      (m w).2.wire.map nf = w.wire.map nf ++ (ws (q w.chip)).take k ∧ (m w).2.notes = w.notes ∧
      (m w).2.usb = shift w.usb (if k = n then n else k + 1)

/-- What is left of the world by a routine `m` that only sends and got through. -/
structure Sent (q : σ → β) (nf : ξ → ζ) (w w' : World σ ξ ν) (ws : List ζ) : Prop where
  /-- The driver's state, up to what the transfers themselves count. -/
  chip : q w'.chip = q w.chip
  /-- The transfers are on the wire. -/
  wire : w'.wire.map nf = w.wire.map nf ++ ws
  /-- No notification was raised. -/
  notes : w'.notes = w.notes

section Sends

variable {q : σ → β} {nf : ξ → ζ} {e : ε}

/-- A value sends nothing. -/
theorem Sends.pure : Sends q nf e (pure () : M σ ξ ν ε Unit) (fun _ => []) := fun w => by simp

/-- A transfer sends itself. -/
theorem Sends.send (x : ξ) : Sends q nf e (M.send e x : M σ ξ ν ε Unit) (fun _ => [nf x]) := fun w => by
  simp only [M.send, List.length_singleton, delivered]
  cases h : w.usb 0 <;> simp

/-- Two sending routines in sequence. -/
theorem Sends.seq {m₁ m₂ : M σ ξ ν ε Unit} {ws₁ ws₂ : β → List ζ} (h₁ : Sends q nf e m₁ ws₁)
    (h₂ : Sends q nf e m₂ ws₂) : Sends q nf e (do m₁; m₂) (fun b => ws₁ b ++ ws₂ b) := fun w => by
  obtain ⟨hr, hc, hw, hn, hu⟩ := h₁ w
  generalize hb : q w.chip = b at *
  have hle := delivered_le w.usb (ws₁ b).length
  rw [M.bind_run]
  simp only [List.length_append, delivered_add]
  -- The first routine comes through, and the second one sends on from there.
  by_cases hk : delivered w.usb (ws₁ b).length = (ws₁ b).length
  · rw [if_pos hk] at hr hu ⊢
    obtain ⟨a, w', hm⟩ : ∃ a w', m₁ w = (.ok a, w') := ⟨(), _, Prod.ext hr rfl⟩
    simp only [hm] at hc hw hn hu ⊢
    obtain ⟨hr₂, hc₂, hw₂, hn₂, hu₂⟩ := h₂ w'
    rw [hc, hu] at hr₂ hu₂
    rw [hc, hu, hw] at hw₂
    simp only [Nat.add_left_cancel_iff]
    refine ⟨hr₂, hc₂.trans hc, ?_, hn₂.trans hn, ?_⟩
    · rw [hw₂, hk, List.take_length, List.append_assoc, List.take_length_add_append]
    · rw [hu₂, shift_shift]
      split <;> simp [Nat.add_assoc]
  -- The first routine is cut short, and with it the sequence.
  · rw [if_neg hk] at hr hu ⊢
    obtain ⟨w', hm⟩ : ∃ w', m₁ w = (.error e, w') := ⟨_, Prod.ext hr rfl⟩
    simp only [hm] at hc hw hn hu ⊢
    have hk' : delivered w.usb (ws₁ b).length ≠ (ws₁ b).length + (ws₂ b).length := by omega
    rw [if_neg hk', if_neg hk']
    refine ⟨rfl, hc, ?_, hn, hu⟩
    rw [hw, List.take_append_of_le_length hle]

/-- A step that reads the state or changes what `q` does not see, before a sending routine. -/
theorem Sends.after {m : M σ ξ ν ε α} {f : α → M σ ξ ν ε Unit} {ws : β → List ζ}
    (hm : ∀ w, ∃ a c, m w = (.ok a, { w with chip := c }) ∧ q c = q w.chip ∧
      ∃ vs, Sends q nf e (f a) vs ∧ vs (q w.chip) = ws (q w.chip)) :
    Sends q nf e (m >>= f) ws := fun w => by
  obtain ⟨a, c, hr, hc, vs, hs, hvs⟩ := hm w
  rw [M.bind_of_ok hr]
  have := hs { w with chip := c }
  simp only [hc, hvs] at this
  exact this

/-- A loop whose body sends. -/
theorem Sends.each {f : γ → M σ ξ ν ε Unit} {ws : γ → β → List ζ} (l : List γ)
    (h : ∀ a ∈ l, Sends q nf e (f a) (ws a)) :
    Sends q nf e (M.each l f) (fun b => l.flatMap fun a => ws a b) := by
  induction l with
  | nil => exact Sends.pure
  | cons a l ih =>
    exact (h a List.mem_cons_self).seq (ih fun b hb => h b (List.mem_cons_of_mem a hb))

/-- A routine that runs if a condition holds sends nothing otherwise. -/
theorem Sends.when {m : M σ ξ ν ε Unit} {ws : β → List ζ} (p : Bool) (h : Sends q nf e m ws) :
    Sends q nf e (M.when p m) fun b => if p then ws b else [] := by
  cases p
  · exact Sends.pure
  · exact h

/-- The specification may be restated. -/
theorem Sends.congr {m : M σ ξ ν ε Unit} {ws vs : β → List ζ} (h : Sends q nf e m ws)
    (hv : ∀ b, ws b = vs b) : Sends q nf e m vs := by
  rwa [← funext hv]

/-- A sending routine with no failure to come sends everything. -/
theorem Sends.run_live {m : M σ ξ ν ε Unit} {ws : β → List ζ} (h : Sends q nf e m ws)
    {w : World σ ξ ν} (hu : ∀ i, w.usb i = true) :
    ∃ w', m w = (.ok (), w') ∧ Sent q nf w w' (ws (q w.chip)) ∧ ∀ i, w'.usb i = true := by
  obtain ⟨hr, hc, hw, hn, hu'⟩ := h w
  rw [delivered_of_live hu] at hr hw hu'
  refine ⟨(m w).2, Prod.ext (by rw [hr, if_pos rfl]) rfl, ⟨hc, ?_, hn⟩, fun i => ?_⟩
  · rw [hw, List.take_length]
  · rw [hu']; exact hu _

/-- A sending routine that got through sent everything. -/
theorem Sends.run_ok {m : M σ ξ ν ε Unit} {ws : β → List ζ} (h : Sends q nf e m ws)
    {w w' : World σ ξ ν} (hm : m w = (.ok (), w')) : Sent q nf w w' (ws (q w.chip)) := by
  obtain ⟨hr, hc, hw, hn, -⟩ := h w
  rw [hm] at hr hc hw hn
  have hk : delivered w.usb (ws (q w.chip)).length = (ws (q w.chip)).length := by
    by_contra hk
    rw [if_neg hk] at hr
    cases hr
  refine ⟨hc, ?_, hn⟩
  rw [hw, hk, List.take_length]

end Sends

/-! ## Routines that succeed -/

/-- When `m` returns without an error, from a state that satisfies `P`, it has sent `ws` and turned
the state into `f`; states are seen through `q`. -/
def Acts (q : σ → σ) (nf : ξ → ζ) (P : σ → Prop) (m : M σ ξ ν ε α) (f : σ → σ)
    (ws : σ → List ζ) : Prop :=
  ∀ w a w', P (q w.chip) → m w = (.ok a, w') →
    q w'.chip = f (q w.chip) ∧ w'.wire.map nf = w.wire.map nf ++ ws (q w.chip) ∧ w'.notes = w.notes

section Acts

variable {q : σ → σ} {nf : ξ → ζ} {e : ε} {P : σ → Prop} {f g : σ → σ} {ws vs : σ → List ζ}

/-- A routine that only sends keeps the state. -/
theorem Sends.acts {m : M σ ξ ν ε Unit} (h : Sends q nf e m ws) : Acts q nf P m id ws :=
  fun w a w' _ hm => by
    have hs : Sent q nf w w' (ws (q w.chip)) := h.run_ok hm
    exact ⟨hs.chip, hs.wire, hs.notes⟩

/-- An error return is no success. -/
theorem Acts.throw (e : ε) : Acts q nf P (M.throw e : M σ ξ ν ε α) f ws := fun _ _ _ _ hm => by
  cases hm

/-- Two routines in sequence: the second works on the state that the first left. -/
theorem Acts.bind {m : M σ ξ ν ε α} {k : α → M σ ξ ν ε γ} (h : Acts q nf P m f ws)
    (hP : ∀ s, P s → P (f s)) (hk : ∀ a, Acts q nf P (k a) g vs) :
    Acts q nf P (m >>= k) (fun s => g (f s)) fun s => ws s ++ vs (f s) := fun w a w' hp hm => by
  rw [M.bind_run] at hm
  split at hm
  · rename_i b w₁ h₁
    obtain ⟨hc, hw, hn⟩ := h w b w₁ hp h₁
    obtain ⟨hc', hw', hn'⟩ := hk b w₁ a w' (hc ▸ hP _ hp) hm
    rw [hc] at hc' hw'
    exact ⟨hc', by rw [hw', hw, List.append_assoc], hn'.trans hn⟩
  · cases hm

/-- A routine that keeps the state, before another. -/
theorem Acts.andThen {m : M σ ξ ν ε Unit} {k : M σ ξ ν ε γ} (h : Acts q nf P m id ws)
    (hk : Acts q nf P k f vs) : Acts q nf P (do m; k) f fun s => ws s ++ vs s :=
  h.bind (fun _ hp => hp) fun _ => hk

/-- A routine that reads the state first, and then knows what it read. -/
theorem Acts.get {k : σ → M σ ξ ν ε γ}
    (h : ∀ s, ∃ f' ws', Acts q nf (fun t => P t ∧ t = q s) (k s) f' ws' ∧
      f' (q s) = f (q s) ∧ ws' (q s) = ws (q s)) :
    Acts q nf P (do let s ← M.get; k s) f ws := fun w a w' hp hm => by
  obtain ⟨f', ws', hk, hf, hws⟩ := h w.chip
  obtain ⟨hc, hw, hn⟩ := hk w a w' ⟨hp, rfl⟩ hm
  rw [hf] at hc
  rw [hws] at hw
  exact ⟨hc, hw, hn⟩

/-- A change of the state. -/
theorem Acts.modify {f₀ : σ → σ} (h : ∀ s, q (f₀ s) = f (q s)) :
    Acts q nf P (M.modify f₀ : M σ ξ ν ε Unit) f fun _ => [] := fun w a w' _ hm => by
  cases hm
  exact ⟨h _, by simp, rfl⟩

/-- A loop whose body changes the state, but sends what does not depend on it. -/
theorem Acts.each {body : γ → M σ ξ ν ε Unit} {f : γ → σ → σ} {ws : γ → List ζ} (l : List γ)
    (hP : ∀ a s, P s → P (f a s)) (h : ∀ a ∈ l, Acts q nf P (body a) (f a) fun _ => ws a) :
    Acts q nf P (M.each l body) (fun s => l.foldl (fun s a => f a s) s)
      fun _ => l.flatMap ws := by
  induction l with
  | nil =>
    intro w a w' _ hm
    cases hm
    exact ⟨rfl, by simp, rfl⟩
  | cons a l ih =>
    exact (h a List.mem_cons_self).bind (hP a) fun _ =>
      ih fun b hb => h b (List.mem_cons_of_mem a hb)

/-- The precondition may be strengthened. -/
theorem Acts.weaken {P' : σ → Prop} {m : M σ ξ ν ε α} (h : Acts q nf P m f ws)
    (hp : ∀ s, P' s → P s) : Acts q nf P' m f ws := fun w a w' hw hm => h w a w' (hp _ hw) hm

/-- The specification may be restated where the precondition holds. -/
theorem Acts.congr {m : M σ ξ ν ε α} (h : Acts q nf P m f ws) (hf : ∀ s, P s → f s = g s)
    (hws : ∀ s, P s → ws s = vs s) : Acts q nf P m g vs := fun w a w' hp hm => by
  obtain ⟨hc, hw, hn⟩ := h w a w' hp hm
  exact ⟨hc.trans (hf _ hp), by rw [hw, hws _ hp], hn⟩

end Acts

/-! ## Routines that ignore failures -/

/-- A routine that always returns: it turns the state into `f`, tries to send each of `ws`, whatever
becomes of the others, and raises the notifications `ns`. States are seen through `q`. -/
def Does (q : σ → σ) (nf : ξ → ζ) (m : M σ ξ ν ε Unit) (f : σ → σ) (ws : σ → List ζ)
    (ns : σ → List ν) : Prop :=
  ∀ w, ∃ w' vs, m w = (.ok (), w') ∧ q w'.chip = q (f (q w.chip)) ∧
    w'.wire.map nf = w.wire.map nf ++ vs ∧ vs.Sublist (ws (q w.chip)) ∧
    w'.notes = w.notes ++ ns (q w.chip) ∧
    ((∀ i, w.usb i = true) → vs = ws (q w.chip) ∧ ∀ i, w'.usb i = true)

section Does

variable {q : σ → σ} {nf : ξ → ζ} {e : ε} {f g : σ → σ} {ws vs : σ → List ζ} {ns ms : σ → List ν}

/-- A value does nothing. -/
theorem Does.pure (hq : ∀ s, q (q s) = q s) :
    Does q nf (pure () : M σ ξ ν ε Unit) id (fun _ => []) fun _ => [] := fun w =>
  ⟨w, [], rfl, (hq _).symm, by simp, List.Sublist.refl _, by simp, fun h => ⟨rfl, h⟩⟩

/-- A change of the state. -/
theorem Does.modify (hf : ∀ s, q (f (q s)) = q (f s)) :
    Does q nf (M.modify f : M σ ξ ν ε Unit) f (fun _ => []) fun _ => [] := fun w =>
  ⟨{ w with chip := f w.chip }, [], rfl, (hf _).symm, by simp, List.Sublist.refl _, by simp,
    fun h => ⟨rfl, h⟩⟩

/-- A notification. -/
theorem Does.notify (hq : ∀ s, q (q s) = q s) (n : ν) :
    Does q nf (M.notify n : M σ ξ ν ε Unit) id (fun _ => []) fun _ => [n] := fun w =>
  ⟨{ w with notes := w.notes ++ [n] }, [], rfl, (hq _).symm, by simp, List.Sublist.refl _, rfl,
    fun h => ⟨rfl, h⟩⟩

/-- A transfer whose failure is ignored. -/
theorem Does.send (hq : ∀ s, q (q s) = q s) (x : ξ) :
    Does q nf (M.ignore (M.send e x : M σ ξ ν ε Unit)) id (fun _ => [nf x]) fun _ => [] := fun w => by
  cases h : w.usb 0 with
  | true =>
    refine ⟨{ w with wire := w.wire ++ [x], usb := shift w.usb 1 }, [nf x], ?_, (hq _).symm,
      by simp, List.Sublist.refl _, by simp, fun h => ⟨rfl, fun i => h _⟩⟩
    simp only [M.ignore, M.bind_run, M.attempt, M.send, h, if_true, M.pure_run]
  | false =>
    refine ⟨{ w with usb := shift w.usb 1 }, [], ?_, (hq _).symm, by simp, List.nil_sublist _,
      by simp, fun hu => ?_⟩
    · simp only [M.ignore, M.bind_run, M.attempt, M.send, h, Bool.false_eq_true, if_false,
        M.pure_run]
    · rw [hu] at h
      cases h

/-- A routine that only sends, whose failure is ignored. -/
theorem Does.ignore (hq : ∀ s, q (q s) = q s) {m : M σ ξ ν ε Unit} (h : Sends q nf e m ws) :
    Does q nf (M.ignore m) id ws fun _ => [] := fun w => by
  obtain ⟨-, hc, hw, hn, hu⟩ := h w
  obtain ⟨b, hb⟩ := M.attempt_run m w
  refine ⟨(m w).2, _, ?_, hc.trans (hq _).symm, hw, List.take_sublist _ _, ?_, fun hl => ⟨?_, fun i => ?_⟩⟩
  · rw [M.ignore, M.bind_of_ok hb, M.pure_run]
  · rw [hn, List.append_nil]
  · rw [delivered_of_live hl, List.take_length]
  · rw [hu]
    exact hl _

/-- Two routines in sequence: the second works on the state that the first left. -/
theorem Does.seq {m k : M σ ξ ν ε Unit} (h : Does q nf m f ws ns) (hk : Does q nf k g vs ms)
    (hg : ∀ s, q (g (q s)) = q (g s)) :
    Does q nf (do m; k) (fun s => g (f s)) (fun s => ws s ++ vs (q (f s)))
      fun s => ns s ++ ms (q (f s)) := fun w => by
  obtain ⟨w₁, us, h₁, hc, hw, hsub, hn, hl⟩ := h w
  obtain ⟨w₂, us', h₂, hc', hw', hsub', hn', hl'⟩ := hk w₁
  rw [hc] at hc' hsub' hn' hl'
  refine ⟨w₂, us ++ us', ?_, ?_, ?_, hsub.append hsub', ?_, fun hu => ?_⟩
  · rw [M.bind_of_ok h₁, h₂]
  · rw [hc', hg]
  · rw [hw', hw, List.append_assoc]
  · rw [hn', hn, List.append_assoc]
  · obtain ⟨hv, hu₁⟩ := hl hu
    obtain ⟨hv', hu₂⟩ := hl' hu₁
    exact ⟨by rw [hv, hv'], hu₂⟩

/-- A routine that reads the state first. -/
theorem Does.get {k : σ → M σ ξ ν ε Unit}
    (h : ∀ s, ∃ f' ws' ns', Does q nf (k s) f' ws' ns' ∧ q (f' (q s)) = q (f (q s)) ∧
      ws' (q s) = ws (q s) ∧ ns' (q s) = ns (q s)) :
    Does q nf (do let s ← M.get; k s) f ws ns := fun w => by
  obtain ⟨f', ws', ns', hk, hf, hws, hns⟩ := h w.chip
  obtain ⟨w', us, h₁, hc, hw, hsub, hn, hl⟩ := hk w
  rw [hws] at hsub hl
  exact ⟨w', us, h₁, hc.trans hf, hw, hsub, by rw [hn, hns], hl⟩

/-- The branch that is taken. -/
theorem Does.ite {m k : M σ ξ ν ε Unit} (p : Prop) [Decidable p] (h : p → Does q nf m f ws ns)
    (hk : ¬ p → Does q nf k g vs ms) :
    Does q nf (if p then m else k) (fun s => if p then f s else g s)
      (fun s => if p then ws s else vs s) fun s => if p then ns s else ms s := by
  by_cases hp : p
  · simpa only [hp, if_true] using h hp
  · simpa only [hp, if_false] using hk hp

/-- A change made through a list sees no more of the state than each of its steps. -/
theorem foldl_seen {f : γ → σ → σ} (hq : ∀ s, q (q s) = q s) (hf : ∀ a s, q (f a (q s)) = q (f a s))
    (l : List γ) (s : σ) : q (l.foldl (fun s a => f a s) (q s)) = q (l.foldl (fun s a => f a s) s) := by
  induction l generalizing s with
  | nil => exact hq s
  | cons a l ih => rw [List.foldl_cons, List.foldl_cons, ← ih, hf, ih]

/-- A loop over different elements, where what the body does for one is not seen by the others. -/
theorem Does.each {body : γ → M σ ξ ν ε Unit} {f : γ → σ → σ} {ws : γ → σ → List ζ} {ns : γ → σ → List ν}
    (hq : ∀ s, q (q s) = q s) (hf : ∀ a s, q (f a (q s)) = q (f a s)) {l : List γ} (hn : l.Nodup)
    (h : ∀ a ∈ l, Does q nf (body a) (f a) (ws a) (ns a))
    (hapart : ∀ a b s, b ≠ a → ws b (q (f a s)) = ws b s ∧ ns b (q (f a s)) = ns b s) :
    Does q nf (M.each l body) (fun s => l.foldl (fun s a => f a s) s) (fun s => l.flatMap (ws · s))
      fun s => l.flatMap (ns · s) := by
  -- The induction is on the list: the rest of the loop finds what it would find without its first turn.
  induction l with
  | nil => exact Does.pure hq
  | cons a l ih =>
    obtain ⟨ha, hl⟩ := List.nodup_cons.mp hn
    have hrest := ih hl fun b hb => h b (List.mem_cons_of_mem a hb)
    have hseq := (h a List.mem_cons_self).seq hrest (foldl_seen hq hf l)
    have hne : ∀ b ∈ l, b ≠ a := fun b hb he => ha (he ▸ hb)
    have hws : ∀ s, l.flatMap (ws · (q (f a s))) = l.flatMap (ws · s) := fun s =>
      List.flatMap_congr fun b hb => (hapart a b s (hne b hb)).1
    have hns : ∀ s, l.flatMap (ns · (q (f a s))) = l.flatMap (ns · s) := fun s =>
      List.flatMap_congr fun b hb => (hapart a b s (hne b hb)).2
    simp only [hws, hns] at hseq
    exact hseq

/-- With no failure to come, everything is sent. -/
theorem Does.run_live {m : M σ ξ ν ε Unit} (h : Does q nf m f ws ns) {w : World σ ξ ν}
    (hl : ∀ i, w.usb i = true) :
    ∃ w', m w = (.ok (), w') ∧ q w'.chip = q (f (q w.chip)) ∧
      w'.wire.map nf = w.wire.map nf ++ ws (q w.chip) ∧ ∀ i, w'.usb i = true := by
  obtain ⟨w', vs, hm, hc, hw, -, -, hlive⟩ := h w
  obtain ⟨rfl, hl'⟩ := hlive hl
  exact ⟨w', hm, hc, hw, hl'⟩

end Does

end Bus
