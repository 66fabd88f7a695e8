import Mathlib.Algebra.BigOperators.Group.List.Basic
import Mathlib.Algebra.Order.Group.Nat
import Mathlib.Data.List.Basic
import Mathlib.Data.Nat.ModEq
import Mathlib.Tactic.Common

/-!
# Rings of slots

A ring is filled or drained by a loop whose position returns to 0 at the end. `loop_eq_storeFrom`
says that such a loop, started at a running count modulo the size, puts the item of number `k` in
slot `k` modulo the size. The running count also tells periods apart: a step that does not exceed a
period crosses at most one of their boundaries, so the crossings count the periods.
-/

namespace Ring

/-! ## Memory -/

section Memory

variable {β : Type*}

/-- `memcpy` of the first `n` cells of `src` to the address `dst`. -/
def memcpy (m : ℕ → β) (dst : ℕ) (src : ℕ → β) (n : ℕ) : ℕ → β :=
  fun a => if dst ≤ a ∧ a < dst + n then src (a - dst) else m a

/-- `memset` of `n` cells from the address `dst`. -/
def memset (m : ℕ → β) (dst : ℕ) (v : β) (n : ℕ) : ℕ → β := memcpy m dst (fun _ => v) n

/-- A copied byte is that of the source. -/
theorem memcpy_at (m : ℕ → β) (dst : ℕ) (src : ℕ → β) {n i : ℕ} (h : i < n) :
    memcpy m dst src n (dst + i) = src i := by
  unfold memcpy
  rw [if_pos (by omega), Nat.add_sub_cancel_left]

/-- The bytes beside a copy stay. -/
theorem memcpy_out (m : ℕ → β) {dst : ℕ} (src : ℕ → β) {n a : ℕ} (h : a < dst ∨ dst + n ≤ a) :
    memcpy m dst src n a = m a := by
  unfold memcpy
  rw [if_neg (by omega)]

/-- A byte that was set. -/
theorem memset_at (m : ℕ → β) (dst : ℕ) (v : β) {n i : ℕ} (h : i < n) :
    memset m dst v n (dst + i) = v :=
  memcpy_at m dst _ h

/-- The bytes beside those that were set stay. -/
theorem memset_out (m : ℕ → β) {dst : ℕ} (v : β) {n a : ℕ} (h : a < dst ∨ dst + n ≤ a) :
    memset m dst v n a = m a :=
  memcpy_out m _ h

end Memory

/-! ## Positions -/

/-- `pos++; if (pos >= size) pos = 0;`. -/
def next (size pos : ℕ) : ℕ := if size ≤ pos + 1 then 0 else pos + 1

/-- The position of the next count. -/
theorem next_mod {size : ℕ} (h : 0 < size) (k : ℕ) : next size (k % size) = (k + 1) % size := by
  have hlt : k % size < size := Nat.mod_lt k h
  unfold next
  split
  · have hlast : k % size + 1 = size := by omega
    rw [← Nat.mod_add_mod, hlast, Nat.mod_self]
  · rw [← Nat.mod_add_mod, Nat.mod_eq_of_lt (a := k % size + 1) (by omega)]

section Loop

variable {α γ : Type*} (body : ℕ → ℕ → α → α) (store : ℕ → γ → α → α) (size : ℕ)

/-- The loop over the items `f` to `f + n`, whose position starts at `pos`. -/
def loop : ℕ → ℕ → ℕ → α → α
  | 0, _, _, a => a
  | n + 1, f, pos, a => loop n (f + 1) (next size pos) (body f pos a)

/-- The items stored one after the other, where the first one has the number `k`. -/
def storeFrom : ℕ → List γ → α → α
  | _, [], a => a
  | k, x :: xs, a => storeFrom (k + 1) xs (store (k % size) x a)

variable {body store size}

/-- Items, and others that are stored behind them. -/
theorem storeFrom_append (xs ys : List γ) :
    ∀ (k : ℕ) (a : α), storeFrom store size k (xs ++ ys) a =
      storeFrom store size (k + xs.length) ys (storeFrom store size k xs a) := by
  induction xs with
  | nil => exact fun k a => rfl
  | cons x xs ih =>
    intro k a
    rw [List.cons_append, storeFrom, ih, storeFrom, List.length_cons]
    congr 1
    omega

/-- The loop puts each item in the slot of its number. -/
theorem loop_eq_storeFrom (h : 0 < size) (item : ℕ → γ)
    (hbody : ∀ f pos a, body f pos a = store pos (item f) a) :
    ∀ (n f k : ℕ) (a : α), loop body size n f (k % size) a =
      storeFrom store size k ((List.range' f n).map item) a
  | 0, _, _, _ => rfl
  | n + 1, f, k, a => by
    rw [loop, next_mod h, loop_eq_storeFrom h item hbody n (f + 1) (k + 1), hbody,
      List.range'_succ, List.map_cons, storeFrom]

end Loop

section Slots

variable {β γ : Type*} {size : ℕ} {store : ℕ → γ → (ℕ → β) → ℕ → β}

/-- What a store leaves alone in every slot, the stores of a list leave alone. -/
theorem storeFrom_out (h : 0 < size) {a : ℕ}
    (hout : ∀ s x m, s < size → store s x m a = m a) (xs : List γ) :
    ∀ (k : ℕ) (m : ℕ → β), storeFrom store size k xs m a = m a := by
  induction xs with
  | nil => exact fun k m => rfl
  | cons x xs ih =>
    intro k m
    rw [storeFrom, ih, hout _ _ _ (Nat.mod_lt k h)]

/-- Stores that do not come round to a slot leave alone what only that slot's store changes. -/
theorem storeFrom_miss {a slot : ℕ} (hmiss : ∀ s x m, s ≠ slot → store s x m a = m a)
    (xs : List γ) :
    ∀ (k : ℕ) (m : ℕ → β), (∀ i < xs.length, (k + i) % size ≠ slot) →
      storeFrom store size k xs m a = m a := by
  induction xs with
  | nil => exact fun k m _ => rfl
  | cons x xs ih =>
    intro k m hk
    have hfirst : k % size ≠ slot := hk 0 (Nat.succ_pos _)
    have hrest : ∀ i < xs.length, (k + 1 + i) % size ≠ slot := by
      intro i hi
      have hnext := hk (i + 1) (Nat.succ_lt_succ hi)
      rwa [Nat.add_assoc, Nat.add_comm 1 i]
    rw [storeFrom, ih (k + 1) _ hrest, hmiss _ _ _ hfirst]

/-- The slot of a count is not met again before a whole turn of the ring. -/
theorem mod_ne_of_lt {k i : ℕ} (h0 : 0 < i) (h : i < size) : (k + i) % size ≠ k % size := by
  intro heq
  have hdvd : size ∣ i := by
    have hsub := (Nat.modEq_iff_dvd' (Nat.le_add_right k i)).mp heq.symm
    rwa [Nat.add_sub_cancel_left] at hsub
  exact absurd (Nat.le_of_dvd h0 hdvd) (by omega)

/-- After a run of stores, the slot of a number of the last turn holds what its own store put
there. -/
theorem storeFrom_slot {xs : List γ} {k i : ℕ} (hi : i < xs.length)
    (hlast : xs.length ≤ i + size) (m : ℕ → β) {a : ℕ} {v : β}
    (hmiss : ∀ s x m, s ≠ (k + i) % size → store s x m a = m a)
    (hput : ∀ m, store ((k + i) % size) xs[i] m a = v) :
    storeFrom store size k xs m a = v := by
  have hsplit : xs = xs.take i ++ xs[i] :: xs.drop (i + 1) := by simp
  have hlen : (xs.take i).length = i := List.length_take_of_le hi.le
  rw [hsplit, storeFrom_append, hlen, storeFrom, storeFrom_miss hmiss, hput]
  intro j hj
  rw [List.length_drop] at hj
  rw [Nat.add_assoc (k + i) 1 j]
  exact mod_ne_of_lt (by omega) (by omega)

/-- A loop that drains the ring into consecutive items of `len` cells: each item holds what its slot
holds, and the cells outside the items are left alone. -/
theorem loop_at {body : ℕ → ℕ → (ℕ → β) → ℕ → β} {len : ℕ} {val : ℕ → ℕ → β} (h : 0 < size)
    (hput : ∀ f pos m x, x < len → body f pos m (f * len + x) = val pos x)
    (hout : ∀ f pos m a, a < f * len ∨ (f + 1) * len ≤ a → body f pos m a = m a) :
    ∀ (n f k : ℕ) (m : ℕ → β),
      (∀ i < n, ∀ x < len, loop body size n f (k % size) m ((f + i) * len + x) =
        val ((k + i) % size) x) ∧
      ∀ a, a < f * len ∨ (f + n) * len ≤ a → loop body size n f (k % size) m a = m a
  | 0, _, _, _ => ⟨fun i hi => absurd hi (Nat.not_lt_zero i), fun _ _ => rfl⟩
  | n + 1, f, k, m => by
    -- The items after the first, by the recursion, in the cells that the first item has left.
    obtain ⟨hitems, hrest⟩ :=
      loop_at h hput hout n (f + 1) (k + 1) (body f (k % size) m)
    have hnext : f * len ≤ (f + 1) * len := Nat.mul_le_mul_right len (Nat.le_succ f)
    have hend : (f + 1) * len ≤ (f + 1 + n) * len := Nat.mul_le_mul_right len (Nat.le_add_right _ n)
    simp only [loop, next_mod h]
    constructor
    · intro i hi x hx
      rcases i with _ | i
      · -- The first item is not written again.
        have hlt : f * len + x < (f + 1) * len := by
          rw [Nat.succ_mul]
          omega
        change loop body size n (f + 1) ((k + 1) % size) (body f (k % size) m) (f * len + x) =
          val (k % size) x
        rw [hrest _ (Or.inl hlt), hput f _ m x hx]
      · have hitem := hitems i (by omega) x hx
        rwa [show f + 1 + i = f + (i + 1) by omega, show k + 1 + i = k + (i + 1) by omega] at hitem
    · intro a ha
      rw [show f + (n + 1) = f + 1 + n by omega] at ha
      rw [hrest a (by omega), hout f _ m a (by omega)]

end Slots

/-! ## Periods -/

/-- Whether the `n` counts from `t` on cross a multiple of `p`. -/
def crosses (p t n : ℕ) : Bool := decide ((t + n) / p ≠ t / p)

/-- The crossings of one step after the other, from the count `t` on. -/
def crossings (p : ℕ) : ℕ → List ℕ → List Bool
  | _, [] => []
  | t, n :: ns => crosses p t n :: crossings p (t + n) ns

/-- A count crosses a multiple when there is one in the counts it adds. -/
theorem crosses_iff {p t n : ℕ} (hp : 0 < p) :
    crosses p t n = true ↔ ∃ m, p ∣ m ∧ t < m ∧ m ≤ t + n := by
  have hmono : t / p ≤ (t + n) / p := Nat.div_le_div_right (Nat.le_add_right t n)
  rw [crosses, decide_eq_true_iff]
  constructor
  · intro h
    refine ⟨(t + n) / p * p, Nat.dvd_mul_left p _, ?_, Nat.div_mul_le_self _ _⟩
    exact (Nat.div_lt_iff_lt_mul hp).mp (by omega)
  · rintro ⟨m, ⟨c, rfl⟩, hlt, hle⟩
    rw [Nat.mul_comm] at hlt hle
    have hbelow : t / p < c := (Nat.div_lt_iff_lt_mul hp).mpr hlt
    have habove : c ≤ (t + n) / p := (Nat.le_div_iff_mul_le hp).mpr hle
    omega

/-- Steps that do not exceed a period cross as many boundaries as there are whole periods. -/
theorem count_crossings {p : ℕ} (hp : 0 < p) :
    ∀ (ns : List ℕ) (t : ℕ), (∀ n ∈ ns, n ≤ p) →
      t / p + (crossings p t ns).count true = (t + ns.sum) / p
  | [], _, _ => rfl
  | n :: ns, t, h => by
    -- The induction is on the steps. A step of at most a period crosses one boundary at most.
    have ih := count_crossings hp ns (t + n) fun m hm => h m (List.mem_cons_of_mem n hm)
    have hstep : (t + n) / p ≤ t / p + 1 := by
      calc (t + n) / p ≤ (t + p) / p := Nat.div_le_div_right (by simpa using h n (by simp))
        _ = t / p + 1 := Nat.add_div_right t hp
    have hmono : t / p ≤ (t + n) / p := Nat.div_le_div_right (Nat.le_add_right t n)
    have hfirst : t / p + (if crosses p t n then 1 else 0) = (t + n) / p := by
      rw [crosses]
      by_cases heq : (t + n) / p = t / p
      · simp [heq]
      · rw [if_pos (by simpa using heq)]
        omega
    rw [crossings, List.count_cons, List.sum_cons, ← Nat.add_assoc t n, ← ih, ← hfirst]
    simp only [beq_true]
    omega

/-! ## Counts that wrap -/

/-- The quotient of a wrapped count is the quotient's remainder, when the divisor divides the range. -/
theorem mod_div_of_dvd {W p : ℕ} (h : p ∣ W) (t : ℕ) : t % W / p = t / p % (W / p) := by
  obtain ⟨c, rfl⟩ := h
  rcases Nat.eq_zero_or_pos p with rfl | hp
  · simp
  · rw [Nat.mul_div_cancel_left c hp, Nat.mod_mul_right_div_self]

/-- A step that is short against the range crosses a boundary of the wrapped count exactly when it
crosses one of the true count. -/
theorem wrapped_crosses {W p t n : ℕ} (hp : 0 < p) (h : p ∣ W) (hn : n + p ≤ W) :
    (t + n) % W / p ≠ t % W / p ↔ crosses p t n = true := by
  have hmono : t / p ≤ (t + n) / p := Nat.div_le_div_right (Nat.le_add_right t n)
  have hshort : (t + n) / p < t / p + W / p := by
    have ht : t < t / p * p + p := Nat.lt_div_mul_add hp
    rw [Nat.div_lt_iff_lt_mul hp, Nat.add_mul, Nat.div_mul_cancel h]
    omega
  rw [mod_div_of_dvd h, mod_div_of_dvd h, crosses, decide_eq_true_iff, not_iff_not]
  constructor
  · intro heq
    have hdvd := (Nat.modEq_iff_dvd' hmono).mp (Eq.symm heq)
    have hzero := Nat.eq_zero_of_dvd_of_lt hdvd (by omega)
    omega
  · intro heq
    rw [heq]

end Ring
