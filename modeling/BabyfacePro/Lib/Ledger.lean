import BabyfacePro.Lib.Bus

/-!
# A ledger of resources

A routine that takes resources and gives them back enters it in a ledger; the entries are the notes of
its world. `run` replays entries on a set of held resources, and fails at the first that takes what is
held, or uses or gives back what is not. A ledger that runs from nothing to nothing is `Balanced`: every
resource was given back as often as it was taken, and none was touched when it was not held.

`Books P m Q X` is a triple: from a state and a set of held resources in `P`, the entries of `m` run to
`Q`, or to `X` at an error.
-/

namespace Ledger

open Bus (World M)
open Bus.M

/-- An entry about a resource. -/
inductive Entry (ρ : Type) where
  | take (r : ρ)
  | use (r : ρ)
  | give (r : ρ)
  deriving DecidableEq

variable {ρ : Type} [DecidableEq ρ]

/-- What is held after an entry. -/
def Entry.post (s : ρ → Bool) : Entry ρ → Option (ρ → Bool)
  | take r => if s r then none else some (Function.update s r true)
  | use r => if s r then some s else none
  | give r => if s r then some (Function.update s r false) else none

/-- What is held after the entries. -/
def run : List (Entry ρ) → (ρ → Bool) → Option (ρ → Bool)
  | [], s => some s
  | e :: es, s => (e.post s).bind (run es)

/-- Nothing is held. -/
def nothing : ρ → Bool := fun _ => false

/-- The entries run from nothing to nothing. -/
def Balanced (es : List (Entry ρ)) : Prop := run es nothing = some nothing

/-- Entries, and others after them. -/
theorem run_append (es fs : List (Entry ρ)) (s : ρ → Bool) :
    run (es ++ fs) s = (run es s).bind (run fs) := by
  induction es generalizing s with
  | nil => rfl
  | cons e es ih =>
    show (e.post s).bind (run (es ++ fs)) = ((e.post s).bind (run es)).bind (run fs)
    rw [Option.bind_assoc]
    exact congrArg _ (funext ih)

/-! ## The ledger of a routine -/

section Books

variable {σ ξ ε α β : Type}

/-- What holds of a routine's end: its value or its error, the state and what is held. -/
def Ends (Q : α → σ → (ρ → Bool) → Prop) (X : ε → σ → (ρ → Bool) → Prop) (c : σ) (s : ρ → Bool) :
    Except ε α → Prop
  | .ok a => Q a c s
  | .error e => X e c s

/-- The entries of `m` run from `P` to `Q`, or to `X` at an error. -/
def Books (P : σ → (ρ → Bool) → Prop) (m : M σ ξ (Entry ρ) ε α) (Q : α → σ → (ρ → Bool) → Prop)
    (X : ε → σ → (ρ → Bool) → Prop) : Prop :=
  ∀ w s, P w.chip s → ∃ es t, (m w).2.notes = w.notes ++ es ∧ run es s = some t ∧
    Ends Q X (m w).2.chip t (m w).1

variable {P P' : σ → (ρ → Bool) → Prop} {Q Q' : α → σ → (ρ → Bool) → Prop}
  {R : β → σ → (ρ → Bool) → Prop} {X X' : ε → σ → (ρ → Bool) → Prop}

/-- What a routine that makes no entry ends with. -/
theorem Books.of_silent {m : M σ ξ (Entry ρ) ε α}
    (h : ∀ w s, P w.chip s → (m w).2.notes = w.notes ∧ Ends Q X (m w).2.chip s (m w).1) :
    Books P m Q X := fun w s hP =>
  ⟨[], s, by rw [(h w s hP).1, List.append_nil], rfl, (h w s hP).2⟩

/-- A value makes no entry. -/
theorem Books.pure {a : α} (h : ∀ c s, P c s → Q a c s) :
    Books P (Pure.pure a : M σ ξ (Entry ρ) ε α) Q X :=
  .of_silent fun w s hP => ⟨rfl, h w.chip s hP⟩

/-- An error makes no entry. -/
theorem Books.throw {e : ε} (h : ∀ c s, P c s → X e c s) :
    Books P (M.throw e : M σ ξ (Entry ρ) ε α) Q X :=
  .of_silent fun w s hP => ⟨rfl, h w.chip s hP⟩

/-- A change of the state makes no entry. -/
theorem Books.modify {f : σ → σ} {Q : Unit → σ → (ρ → Bool) → Prop} (h : ∀ c s, P c s → Q () (f c) s) :
    Books P (M.modify f : M σ ξ (Entry ρ) ε Unit) Q X :=
  .of_silent fun w s hP => ⟨rfl, h w.chip s hP⟩

/-- Something outside that may fail. -/
theorem Books.recv {e : ε} {a : α} (h : ∀ c s, P c s → Q a c s) (hx : ∀ c s, P c s → X e c s) :
    Books P (M.recv e a : M σ ξ (Entry ρ) ε α) Q X := by
  refine .of_silent fun w s hP => ⟨rfl, ?_⟩
  unfold M.recv
  dsimp only
  split
  · exact h w.chip s hP
  · exact hx w.chip s hP

/-- An entry. -/
theorem Books.notify {e : Entry ρ} {Q : Unit → σ → (ρ → Bool) → Prop}
    (h : ∀ c s, P c s → ∃ t, e.post s = some t ∧ Q () c t) :
    Books P (M.notify e : M σ ξ (Entry ρ) ε Unit) Q X := fun w s hP => by
  obtain ⟨t, ht, hQ⟩ := h w.chip s hP
  refine ⟨[e], t, rfl, ?_, hQ⟩
  show (e.post s).bind some = some t
  rw [ht]
  rfl

/-- A stronger precondition, and weaker postconditions. -/
theorem Books.weaken {m : M σ ξ (Entry ρ) ε α} (h : Books P m Q X) (hP : ∀ c s, P' c s → P c s)
    (hQ : ∀ a c s, Q a c s → Q' a c s) (hX : ∀ e c s, X e c s → X' e c s) : Books P' m Q' X' :=
  fun w s hs => by
    obtain ⟨es, t, hnotes, hrun, hends⟩ := h w s (hP _ _ hs)
    refine ⟨es, t, hnotes, hrun, ?_⟩
    cases hm : (m w).1 with
    | ok a =>
      rw [hm] at hends
      exact hQ a _ _ hends
    | error e =>
      rw [hm] at hends
      exact hX e _ _ hends

/-- The second routine is reached only by a value of the first. -/
theorem Books.bind {m : M σ ξ (Entry ρ) ε α} {k : α → M σ ξ (Entry ρ) ε β} (h : Books P m Q X)
    (hk : ∀ a, Books (Q a) (k a) R X) : Books P (m >>= k) R X := fun w s hs => by
  obtain ⟨es, t, hnotes, hrun, hends⟩ := h w s hs
  cases hm : m w with
  | mk v w₁ =>
    rw [hm] at hnotes hends
    cases v with
    | error e =>
      rw [bind_of_error hm]
      exact ⟨es, t, hnotes, hrun, hends⟩
    | ok a =>
      rw [bind_of_ok hm]
      obtain ⟨fs, u, hnotes', hrun', hends'⟩ := hk a w₁ t hends
      refine ⟨es ++ fs, u, ?_, ?_, hends'⟩
      · rw [hnotes', hnotes, List.append_assoc]
      · rw [run_append, hrun]
        exact hrun'

/-- A routine that reads the state first, and then knows what it read. -/
theorem Books.get {k : σ → M σ ξ (Entry ρ) ε β} (h : ∀ c, Books (fun c' s => c' = c ∧ P c s) (k c) R X) :
    Books P (M.get >>= k) R X := fun w s hs => by
  rw [bind_of_ok (get_run w)]
  exact h w.chip w s ⟨rfl, hs⟩

/-- What a test guards, and what holds without it. -/
theorem Books.when {m : M σ ξ (Entry ρ) ε Unit} {Q : Unit → σ → (ρ → Bool) → Prop} (b : Bool)
    (h : b = true → Books P m Q X) (hk : b = false → ∀ c s, P c s → Q () c s) :
    Books P (M.when b m) Q X := by
  cases b with
  | true => exact h rfl
  | false => exact .pure (hk rfl)

/-- Both branches. -/
theorem Books.ite {m k : M σ ξ (Entry ρ) ε α} (p : Prop) [Decidable p] (h : p → Books P m Q X)
    (hk : ¬ p → Books P k Q X) : Books P (if p then m else k) Q X := by
  by_cases hp : p
  · rw [if_pos hp]
    exact h hp
  · rw [if_neg hp]
    exact hk hp

/-- Whether a routine got through, whatever it did on its way. -/
theorem Books.attempt {m : M σ ξ (Entry ρ) ε α} {Q : Bool → σ → (ρ → Bool) → Prop}
    (h : Books P m (fun _ => Q true) fun _ => Q false) :
    Books P (M.attempt m : M σ ξ (Entry ρ) ε Bool) Q X := fun w s hs => by
  obtain ⟨es, t, hnotes, hrun, hends⟩ := h w s hs
  unfold M.attempt
  rcases hm : m w with ⟨_ | _, _⟩
  all_goals
    rw [hm] at hnotes hends
    exact ⟨es, t, hnotes, hrun, hends⟩

/-- A routine that cleans up after an error, and returns that error. -/
def onError (m : M σ ξ (Entry ρ) ε α) (undo : M σ ξ (Entry ρ) ε Unit) : M σ ξ (Entry ρ) ε α := fun w =>
  match m w with
  | (.ok a, w') => (.ok a, w')
  | (.error e, w') => (.error e, (undo w').2)

/-- The clean-up starts from whatever the error left. -/
theorem Books.onError {m : M σ ξ (Entry ρ) ε α} {undo : M σ ξ (Entry ρ) ε Unit}
    {Y : σ → (ρ → Bool) → Prop} (h : Books P m Q fun _ => Y)
    (hu : Books Y undo (fun _ c s => ∀ e, X e c s) fun _ c s => ∀ e, X e c s) :
    Books P (onError m undo) Q X := fun w s hs => by
  obtain ⟨es, t, hnotes, hrun, hends⟩ := h w s hs
  unfold Ledger.onError
  cases hm : m w with
  | mk v w₁ =>
    rw [hm] at hnotes hends
    cases v with
    -- A success needs no clean-up.
    | ok a => exact ⟨es, t, hnotes, hrun, hends⟩
    | error e =>
      -- The entries of the clean-up follow those of the routine that failed.
      obtain ⟨fs, u, hnotes', hrun', hends'⟩ := hu w₁ t hends
      refine ⟨es ++ fs, u, ?_, ?_, ?_⟩
      · rw [hnotes', hnotes, List.append_assoc]
      · rw [run_append, hrun]
        exact hrun'
      · cases hv : (undo w₁).1 with
        | ok a =>
          rw [hv] at hends'
          exact hends' e
        | error e' =>
          rw [hv] at hends'
          exact hends' e

/-- An entry of a use. -/
theorem Books.use {r : ρ} (h : ∀ c s, P c s → s r = true) :
    Books P (M.notify (.use r) : M σ ξ (Entry ρ) ε Unit) (fun _ => P) X :=
  .notify fun c s hP => ⟨s, if_pos (h c s hP), hP⟩

/-- An entry of what was not held. -/
theorem Books.take {r : ρ} {Q : Unit → σ → (ρ → Bool) → Prop}
    (h : ∀ c s, P c s → s r = false ∧ Q () c (Function.update s r true)) :
    Books P (M.notify (.take r) : M σ ξ (Entry ρ) ε Unit) Q X :=
  .notify fun c s hP => ⟨_, if_neg (Bool.not_eq_true _ ▸ (h c s hP).1), (h c s hP).2⟩

/-- An entry of what was held. -/
theorem Books.give {r : ρ} {Q : Unit → σ → (ρ → Bool) → Prop}
    (h : ∀ c s, P c s → s r = true ∧ Q () c (Function.update s r false)) :
    Books P (M.notify (.give r) : M σ ξ (Entry ρ) ε Unit) Q X :=
  .notify fun c s hP => ⟨_, if_pos (h c s hP).1, (h c s hP).2⟩

/-- A loop that keeps a condition. -/
theorem Books.each {l : List β} {f : β → M σ ξ (Entry ρ) ε Unit}
    (h : ∀ b ∈ l, Books P (f b) (fun _ => P) X) : Books P (M.each l f) (fun _ => P) X := by
  induction l with
  | nil => exact .pure fun _ _ hP => hP
  | cons b l ih =>
    exact (h b List.mem_cons_self).bind fun _ => ih fun b' hb => h b' (List.mem_cons_of_mem b hb)

/-- A loop over the numbers from `i` on, with an invariant. -/
theorem Books.range {f : ℕ → M σ ξ (Entry ρ) ε Unit} {I : ℕ → σ → (ρ → Bool) → Prop} (i n : ℕ)
    (h : ∀ j, i ≤ j → j < i + n → Books (I j) (f j) (fun _ => I (j + 1)) X) :
    Books (I i) (M.each (List.range' i n) f) (fun _ => I (i + n)) X := by
  induction n generalizing i with
  | zero => exact .pure fun _ _ hI => hI
  | succ n ih =>
    rw [List.range'_succ, show i + (n + 1) = i + 1 + n by omega]
    have hi := h i (Nat.le_refl i) (by omega)
    exact hi.bind fun _ => ih (i + 1) fun j hj hlt => h j (by omega) (by omega)

end Books

end Ledger
