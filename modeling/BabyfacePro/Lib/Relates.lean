import BabyfacePro.Lib.Frame

/-!
# Relations between the worlds before and after

`Frames` bounds what a routine does to the state and to the wire apart from each other. Where the two
belong together, or where the notifications count, `Relates R m` says that `m` relates the whole world
before to the whole world after, for every outcome of its transfers. `R` may carry a condition on the
world before, such as that no transfer is going to fail.
-/

namespace Bus

open M

variable {σ ξ ν ζ ε α β γ : Type}

/-- A relation between worlds that routines in sequence keep. -/
structure Linking (R : World σ ξ ν → World σ ξ ν → Prop) : Prop where
  /-- Doing nothing is in the relation. -/
  refl : ∀ w, R w w
  /-- The relation composes. -/
  trans : ∀ {w w₁ w₂}, R w w₁ → R w₁ w₂ → R w w₂

/-- Whatever becomes of its transfers, and whatever it returns, `m` relates the worlds before and
after by `R`. -/
def Relates (R : World σ ξ ν → World σ ξ ν → Prop) (m : M σ ξ ν ε α) : Prop := ∀ w, R w (m w).2

/-- What holds after a routine, and is kept by the next, holds after both: the second may not be
reached. -/
theorem holds_bind {Q : World σ ξ ν → Prop} {m : M σ ξ ν ε α} {k : α → M σ ξ ν ε β} {w : World σ ξ ν}
    (h : Q (m w).2) (hk : ∀ a w', Q w' → Q (k a w').2) : Q ((m >>= k) w).2 := by
  cases hrun : m w with
  | mk r w₁ =>
    rw [hrun] at h
    cases r with
    | error e => rw [bind_of_error hrun]; exact h
    | ok a => rw [bind_of_ok hrun]; exact hk a w₁ h

namespace Linking

variable {R : World σ ξ ν → World σ ξ ν → Prop}

/-- A value leaves the world where it was. -/
theorem pure (hR : Linking R) (a : α) : Relates R (pure a : M σ ξ ν ε α) := fun w => hR.refl w

/-- So does an error. -/
theorem throw (hR : Linking R) (e : ε) : Relates R (throw e : M σ ξ ν ε α) := fun w => hR.refl w

/-- Two routines in sequence, from one world: the second may not be reached. -/
theorem bind_at (hR : Linking R) {m : M σ ξ ν ε α} {k : α → M σ ξ ν ε β} {w : World σ ξ ν}
    (h : R w (m w).2) (hk : ∀ a, Relates R (k a)) : R w ((m >>= k) w).2 :=
  holds_bind (Q := R w) h fun a w' hw => hR.trans hw (hk a w')

/-- One computation after another. -/
theorem bind (hR : Linking R) {m : M σ ξ ν ε α} {k : α → M σ ξ ν ε β} (h : Relates R m)
    (hk : ∀ a, Relates R (k a)) : Relates R (m >>= k) := fun w => hR.bind_at (h w) hk

/-- A routine that reads the state first, and then knows what it read. -/
theorem get (_ : Linking R) {k : σ → M σ ξ ν ε β} (hk : ∀ w, R w (k w.chip w).2) :
    Relates R (M.get >>= k) := fun w => by
  rw [bind_of_ok (get_run w)]
  exact hk w

/-- Both branches. -/
theorem ite (_ : Linking R) {m k : M σ ξ ν ε α} (p : Prop) [Decidable p] (h : p → Relates R m)
    (hk : ¬ p → Relates R k) : Relates R (if p then m else k) := by
  by_cases hp : p
  · rw [if_pos hp]
    exact h hp
  · rw [if_neg hp]
    exact hk hp

/-- What a test guards. -/
theorem when (hR : Linking R) {m : M σ ξ ν ε Unit} (p : Bool) (h : p = true → Relates R m) :
    Relates R (when p m) := by
  cases p
  · exact hR.pure ()
  · exact h rfl

/-- Every item of a loop. -/
theorem each (hR : Linking R) {f : γ → M σ ξ ν ε Unit} (l : List γ) (h : ∀ a ∈ l, Relates R (f a)) :
    Relates R (each l f) := by
  induction l with
  | nil => exact hR.pure ()
  | cons a l ih =>
    exact hR.bind (h a List.mem_cons_self) fun _ => ih fun b hb => h b (List.mem_cons_of_mem a hb)

/-- An error that is turned into a value. -/
theorem attempt (_ : Linking R) {m : M σ ξ ν ε α} (h : Relates R m) :
    Relates R (attempt m : M σ ξ ν ε Bool) := fun w => by
  obtain ⟨b, hb⟩ := attempt_run m w
  rw [hb]
  exact h w

/-- A result that is dropped. -/
theorem ignore (hR : Linking R) {m : M σ ξ ν ε α} (h : Relates R m) :
    Relates R (ignore m : M σ ξ ν ε Unit) := hR.bind (hR.attempt h) fun _ => hR.pure ()

end Linking

/-- Where each routine of a list settles its own goal and unsettles no other, the list settles the goals of all
and keeps those that were settled before it. -/
theorem each_settles {P : World σ ξ ν → Prop} {D : γ → World σ ξ ν → Prop} {f : γ → M σ ξ ν ε Unit} {l : List γ}
    (h : ∀ a ∈ l, ∀ w, P w → ∃ w', f a w = (.ok (), w') ∧ P w' ∧ D a w' ∧ ∀ b, D b w → D b w')
    {w : World σ ξ ν} (hw : P w) :
    ∃ w', M.each l f w = (.ok (), w') ∧ P w' ∧ (∀ a ∈ l, D a w') ∧ ∀ b, D b w → D b w' := by
  induction l generalizing w with
  | nil => exact ⟨w, rfl, hw, fun a ha => (List.not_mem_nil ha).elim, fun _ hb => hb⟩
  | cons a l ih =>
    obtain ⟨w₁, hrun, hw₁, ha, hkeep⟩ := h a List.mem_cons_self w hw
    obtain ⟨w₂, hrun', hw₂, hl, hkeep'⟩ := ih (fun b hb => h b (List.mem_cons_of_mem a hb)) hw₁
    refine ⟨w₂, by rw [each_cons, bind_of_ok hrun, hrun'], hw₂, fun b hb => ?_, fun b hb => hkeep' b (hkeep b hb)⟩
    obtain rfl | hb := List.mem_cons.mp hb
    · exact hkeep' b ha
    · exact hl b hb

end Bus
