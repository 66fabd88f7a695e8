import BabyfacePro.Lib.Frame
import BabyfacePro.Lib.Registers

/-!
# Put handlers over a cache of registers that cannot be read back

A put handler compares the new value with the cached one and returns at once when they agree.
Otherwise it writes registers and caches the value, in one of two orders: `writeThrough` writes
first, `writeBack` caches first and puts the cache right when a write fails. `Puts` is what either
does, in every case of every transfer. A handler that can be retried after a failure is `Retry`:
whether the device then holds the image of the value last put depends on which value the failure
left in the cache.
-/

namespace Bus

variable {σ ξ ν ζ ε α : Type}

namespace M

/-- A put handler that writes the registers and then changes the cache. -/
def writeThrough (same : σ → Bool) (m : M σ ξ ν ε Unit) (commit : σ → σ) : M σ ξ ν ε ℕ := do
  let s ← get
  if same s then
    return 0
  m
  modify commit
  return 1

/-- A change of the cache and then the writes, which on an error are followed by `undo`, from the
state before. -/
def settle (set : σ → σ) (m : M σ ξ ν ε Unit) (undo : σ → σ → σ) : M σ ξ ν ε Unit := do
  let s ← get
  modify set
  rollback m (undo s)

/-- A put handler that changes the cache and then writes the registers. -/
def writeBack (same : σ → Bool) (set : σ → σ) (m : M σ ξ ν ε Unit) (undo : σ → σ → σ) :
    M σ ξ ν ε ℕ := do
  let s ← get
  if same s then
    return 0
  settle set m undo
  return 1

/-- A notification for a put that changed something. -/
def notifying (put : M σ ξ ν ε ℕ) (ns : σ → List ν) : M σ ξ ν ε ℕ := do
  let s ← get
  let ret ← put
  if ret = 1 then
    each (ns s) notify
  return ret

/-- A further change of the cache before the writes is part of the change. -/
theorem settle_modify (set f : σ → σ) (m : M σ ξ ν ε Unit) (undo : σ → σ → σ) :
    settle set (do modify f; m) undo = settle (fun s => f (set s)) m undo := rfl

/-- A loop that makes one note a turn adds all of them. -/
theorem each_notify_run (ns : List ν) (w : World σ ξ ν) :
    (each ns notify : M σ ξ ν ε Unit) w = (.ok (), { w with notes := w.notes ++ ns }) := by
  induction ns generalizing w with
  | nil => simp
  | cons n ns ih =>
    rw [each_cons, bind_of_ok (notify_run n w), ih]
    simp

end M

/-- What a put handler does: nothing when the value is the cached one, and else the writes `ws` up to
the first that fails, after which the state is `fails`, or `commit` with the notifications `ns` when
all got through. States are seen through `q`. -/
structure Puts (q : σ → σ) (nf : ξ → ζ) (e : ε) (put : M σ ξ ν ε ℕ) (same : σ → Bool)
    (ws : σ → List ζ) (commit fails : σ → σ) (ns : σ → List ν) : Prop where
  /-- The cached value is not written again. -/
  unchanged : ∀ w, same (q w.chip) = true → put w = (.ok 0, w)
  /-- Another value is written. -/
  changed : ∀ w, same (q w.chip) = false →
    let n := (ws (q w.chip)).length
    let k := delivered w.usb n
    (put w).1 = (if k = n then .ok 1 else .error e) ∧
      q (put w).2.chip = q (if k = n then commit (q w.chip) else fails (q w.chip)) ∧
      (put w).2.wire.map nf = w.wire.map nf ++ (ws (q w.chip)).take k ∧
      (put w).2.notes = w.notes ++ (if k = n then ns (q w.chip) else []) ∧
      (put w).2.usb = shift w.usb (if k = n then n else k + 1)

section Puts

variable {q : σ → σ} {nf : ξ → ζ} {e : ε} {same : σ → Bool} {ws : σ → List ζ}
  {commit fails set : σ → σ} {undo : σ → σ → σ} {ns : σ → List ν} {m : M σ ξ ν ε Unit}
  {put : M σ ξ ν ε ℕ}

/-- A handler that writes first leaves the cache alone when a write fails. -/
theorem Puts.writeThrough (hm : Sends q nf e m ws) (hq : ∀ s, q (q s) = q s)
    (hsame : ∀ s, same (q s) = same s) (hcommit : ∀ s, q (commit (q s)) = q (commit s)) :
    Puts q nf e (M.writeThrough same m commit) same ws commit id (fun _ => []) where
  unchanged w h := by
    rw [hsame] at h
    simp only [M.writeThrough, M.bind_run, M.get_run, h, if_true, M.pure_run]
  changed w h := by
    obtain ⟨hr, hc, hw, hn, hu⟩ := hm w
    rw [hsame] at h
    simp only [M.writeThrough, M.bind_run, M.get_run, h, Bool.false_eq_true, if_false]
    -- Either every write is delivered, or the handler stops at the one that fails.
    split at hr
    · rename_i hk
      obtain ⟨w', hm'⟩ : ∃ w', m w = (.ok (), w') := ⟨_, Prod.ext hr rfl⟩
      simp only [hm', M.modify_run, M.pure_run, hk, if_true, List.append_nil] at *
      refine ⟨trivial, ?_, hw, hn, hu⟩
      rw [← hcommit, hc]
    · rename_i hk
      obtain ⟨w', hm'⟩ : ∃ w', m w = (.error e, w') := ⟨_, Prod.ext hr rfl⟩
      simp only [hm', hk, if_false, List.append_nil, id] at *
      exact ⟨trivial, hc.trans (hq _).symm, hw, hn, hu⟩

/-- A change of the cache and then the writes: the change stands when all got through. -/
theorem Sends.settle (hm : Sends q nf e m ws) (hq : ∀ s, q (q s) = q s)
    (hset : ∀ s, q (set (q s)) = q (set s)) (hundo : ∀ s t, q (undo (q s) (q t)) = q (undo s t))
    (w : World σ ξ ν) :
    let n := (ws (q (set (q w.chip)))).length
    let k := delivered w.usb n
    (M.settle set m undo w).1 = (if k = n then .ok () else .error e) ∧
      q (M.settle set m undo w).2.chip =
        q (if k = n then set (q w.chip) else undo (q w.chip) (set (q w.chip))) ∧
      (M.settle set m undo w).2.wire.map nf = w.wire.map nf ++ (ws (q (set (q w.chip)))).take k ∧
      (M.settle set m undo w).2.notes = w.notes ∧
      (M.settle set m undo w).2.usb = shift w.usb (if k = n then n else k + 1) := by
  obtain ⟨hr, hc, hw, hn, hu⟩ := hm { w with chip := set w.chip }
  simp only [M.settle, M.rollback, M.bind_run, M.get_run, M.modify_run, hset]
  split at hr
  -- All the writes got through, and the change stands.
  · rename_i hk
    obtain ⟨w', hm'⟩ : ∃ w', m { w with chip := set w.chip } = (.ok (), w') := ⟨_, Prod.ext hr rfl⟩
    simp only [hm', hk, if_true] at *
    exact ⟨trivial, hc.trans (hset _).symm, hw, hn, hu⟩
  -- A write failed: the change is undone in the cache that the writes have left.
  · rename_i hk
    obtain ⟨w', hm'⟩ : ∃ w', m { w with chip := set w.chip } = (.error e, w') :=
      ⟨_, Prod.ext hr rfl⟩
    simp only [hm', hk, if_false] at *
    refine ⟨trivial, ?_, hw, hn, hu⟩
    rw [← hundo, hc, ← hundo (q w.chip) (set (q w.chip)), hset, hq]

/-- With no failure to come the change stands. -/
theorem Sends.settle_live (hm : Sends q nf e m ws) (set : σ → σ) (undo : σ → σ → σ) {w : World σ ξ ν}
    (hl : ∀ i, w.usb i = true) : ∃ w', M.settle set m undo w = (.ok (), w') ∧
      q w'.chip = q (set w.chip) ∧ w'.wire.map nf = w.wire.map nf ++ ws (q (set w.chip)) ∧
      ∀ i, w'.usb i = true := by
  obtain ⟨w', hrun, hsent, hl'⟩ := hm.run_live (w := { w with chip := set w.chip }) hl
  refine ⟨w', ?_, hsent.chip, hsent.wire, hl'⟩
  simp only [M.settle, M.bind_run, M.get_run, M.modify_run]
  exact M.rollback_of_ok hrun _

/-- A handler that caches first undoes the change when a write fails. -/
theorem Puts.writeBack (hm : Sends q nf e m ws) (hq : ∀ s, q (q s) = q s) (hsame : ∀ s, same (q s) = same s)
    (hset : ∀ s, q (set (q s)) = q (set s))
    (hundo : ∀ s t, q (undo (q s) (q t)) = q (undo s t)) :
    Puts q nf e (M.writeBack same set m undo) same (fun s => ws (q (set s))) set
      (fun s => undo s (set s)) (fun _ => []) where
  unchanged w h := by
    rw [hsame] at h
    simp only [M.writeBack, M.bind_run, M.get_run, h, if_true, M.pure_run]
  changed w h := by
    obtain ⟨hr, hc, hw, hn, hu⟩ := hm.settle hq hset hundo w
    rw [hsame] at h
    simp only [M.writeBack, M.bind_run, M.get_run, h, Bool.false_eq_true, if_false]
    split at hr
    · rename_i hk
      obtain ⟨w', hs⟩ : ∃ w', M.settle set m undo w = (.ok (), w') := ⟨_, Prod.ext hr rfl⟩
      simp only [hs, M.pure_run, hk, if_true, List.append_nil] at *
      exact ⟨trivial, hc, hw, hn, hu⟩
    · rename_i hk
      obtain ⟨w', hs⟩ : ∃ w', M.settle set m undo w = (.error e, w') := ⟨_, Prod.ext hr rfl⟩
      simp only [hs, hk, if_false, List.append_nil] at *
      exact ⟨trivial, hc, hw, hn, hu⟩

/-- A handler that notifies. -/
theorem Puts.notifying (h : Puts q nf e put same ws commit fails (fun _ => []))
    (hns : ∀ s, ns (q s) = ns s) :
    Puts q nf e (M.notifying put ns) same ws commit fails ns where
  unchanged w hs := by
    simp only [M.notifying, M.bind_run, M.get_run, h.unchanged w hs, Nat.zero_ne_one, if_false,
      M.pure_run]
  changed w hs := by
    obtain ⟨hr, hc, hw, hn, hu⟩ := h.changed w hs
    simp only [M.notifying, M.bind_run, M.get_run]
    split at hr
    · rename_i hk
      obtain ⟨w', hm'⟩ : ∃ w', put w = (.ok 1, w') := ⟨_, Prod.ext hr rfl⟩
      simp only [hm', if_true, hk, List.append_nil, hns] at *
      rw [M.bind_of_ok (M.each_notify_run _ _)]
      exact ⟨rfl, hc, hw, by rw [M.pure_run, hn], hu⟩
    · rename_i hk
      obtain ⟨w', hm'⟩ : ∃ w', put w = (.error e, w') := ⟨_, Prod.ext hr rfl⟩
      simp only [hm', hk, if_false, List.append_nil] at *
      exact ⟨trivial, hc, hw, hn, hu⟩

/-- The transfers may be seen through a further map. -/
theorem Puts.map {η : Type} (h : Puts q nf e put same ws commit fails ns) (g : ζ → η) :
    Puts q (fun x => g (nf x)) e put same (fun s => (ws s).map g) commit fails ns where
  unchanged := h.unchanged
  changed w hs := by
    obtain ⟨hr, hc, hw, hn, hu⟩ := h.changed w hs
    have hmap : ∀ l : List ξ, l.map (fun x => g (nf x)) = (l.map nf).map g := fun l => by simp
    simp only [List.length_map]
    exact ⟨hr, hc, by rw [hmap, hw, List.map_append, ← hmap, List.map_take], hn, hu⟩

/-- A put that failed tried to write, and left the state `fails`. -/
theorem Puts.of_error (h : Puts q nf e put same ws commit fails ns) {w w' : World σ ξ ν} {e' : ε}
    (hp : put w = (.error e', w')) :
    e' = e ∧ same (q w.chip) = false ∧
      delivered w.usb (ws (q w.chip)).length < (ws (q w.chip)).length ∧
      q w'.chip = q (fails (q w.chip)) ∧
      w'.wire.map nf = w.wire.map nf ++
        (ws (q w.chip)).take (delivered w.usb (ws (q w.chip)).length) ∧
      w'.notes = w.notes := by
  cases hs : same (q w.chip) with
  | true =>
    rw [h.unchanged w hs] at hp
    cases hp
  | false =>
    obtain ⟨hr, hc, hw, hn, -⟩ := h.changed w hs
    rw [hp] at hr hc hw hn
    have hle := delivered_le w.usb (ws (q w.chip)).length
    -- A put that was delivered in full returns no error.
    have hk : delivered w.usb (ws (q w.chip)).length ≠ (ws (q w.chip)).length := by
      intro hk
      rw [if_pos hk] at hr
      cases hr
    rw [if_neg hk] at hr hc hn
    exact ⟨Except.error.inj hr, rfl, by omega, hc, hw, by rw [hn, List.append_nil]⟩

/-- A put that returned no error either found the value cached or wrote it in full. -/
theorem Puts.of_ok (h : Puts q nf e put same ws commit fails ns) {w w' : World σ ξ ν} {r : ℕ}
    (hp : put w = (.ok r, w')) :
    (same (q w.chip) = true ∧ r = 0 ∧ w' = w) ∨
      (same (q w.chip) = false ∧ r = 1 ∧ q w'.chip = q (commit (q w.chip)) ∧
        w'.wire.map nf = w.wire.map nf ++ ws (q w.chip) ∧
        w'.notes = w.notes ++ ns (q w.chip)) := by
  cases hs : same (q w.chip) with
  | true =>
    rw [h.unchanged w hs] at hp
    cases hp
    exact .inl ⟨rfl, rfl, rfl⟩
  | false =>
    obtain ⟨hr, hc, hw, hn, -⟩ := h.changed w hs
    rw [hp] at hr hc hw hn
    -- A put that was cut short does return one.
    have hk : delivered w.usb (ws (q w.chip)).length = (ws (q w.chip)).length := by
      by_contra hk
      rw [if_neg hk] at hr
      cases hr
    rw [if_pos hk] at hr hc hn
    rw [hk, List.take_length] at hw
    exact .inr ⟨rfl, Except.ok.inj hr, hc, hw, hn⟩

/-- A put with no failure to come finds the value cached or writes it in full. -/
theorem Puts.run_live (h : Puts q nf e put same ws commit fails ns) {w : World σ ξ ν}
    (hl : ∀ i, w.usb i = true) :
    (same (q w.chip) = true ∧ put w = (.ok 0, w)) ∨
      (same (q w.chip) = false ∧ ∃ w', put w = (.ok 1, w') ∧
        q w'.chip = q (commit (q w.chip)) ∧ w'.wire.map nf = w.wire.map nf ++ ws (q w.chip) ∧
        ∀ i, w'.usb i = true) := by
  cases hs : same (q w.chip) with
  | true => exact .inl ⟨rfl, h.unchanged w hs⟩
  | false =>
    obtain ⟨hr, hc, hw, -, hu⟩ := h.changed w hs
    rw [delivered_of_live hl, if_pos rfl] at hr hc hu
    rw [delivered_of_live hl, List.take_length] at hw
    exact .inr ⟨rfl, (put w).2, Prod.ext hr rfl, hc, hw, fun i => by rw [hu]; exact hl _⟩

end Puts

section Frames

variable {q : σ → σ} {nf : ξ → ζ} {e : ε} {same : σ → Bool} {ws : σ → List ζ}
  {commit fails set : σ → σ} {undo : σ → σ → σ} {ns : σ → List ν} {m : M σ ξ ν ε Unit}
  {put : M σ ξ ν ε ℕ} {R : σ → σ → Prop} {T : ζ → Prop} {X : ε → Prop}

/-- What a change of the cache and its undoing keep, a change with its writes keeps. -/
theorem Sends.settle_frames (hm : Sends q nf e m ws) (hq : ∀ s, q (q s) = q s)
    (hset : ∀ s, q (set (q s)) = q (set s)) (hundo : ∀ s t, q (undo (q s) (q t)) = q (undo s t))
    (hR : Respects q R) (hs : ∀ s, R s (set s)) (hu : ∀ s, R s (undo s (set s)))
    (hT : ∀ s, ∀ x ∈ ws s, T x) (hX : X e) : Frames nf R T X (M.settle set m undo) where
  state w := by
    obtain ⟨-, hc, -⟩ := hm.settle hq hset hundo w
    refine hR _ _ _ _ (hq w.chip).symm hc ?_
    split
    · exact hs _
    · exact hu _
  wire w := by
    obtain ⟨-, -, hw, -⟩ := hm.settle hq hset hundo w
    exact ⟨_, hw, fun x hx => hT _ x (List.mem_of_mem_take hx)⟩
  error w e' he := by
    obtain ⟨hr, -⟩ := hm.settle hq hset hundo w
    rw [he] at hr
    split at hr <;> cases hr
    exact hX
  usb w := ⟨_, (hm.settle hq hset hundo w).2.2.2.2⟩

/-- What the two states that a put leaves keep, the put keeps. -/
theorem Puts.frames (h : Puts q nf e put same ws commit fails ns) (hq : ∀ s, q (q s) = q s)
    (hF : Framing R) (hR : Respects q R) (hc : ∀ s, R s (commit s)) (hf : ∀ s, R s (fails s))
    (hT : ∀ s, ∀ x ∈ ws s, T x) (hX : X e) : Frames nf R T X put where
  state w := by
    cases hs : same (q w.chip) with
    | true => rw [h.unchanged w hs]; exact hF.refl _
    | false =>
      obtain ⟨-, hk, -⟩ := h.changed w hs
      refine hR _ _ _ _ (hq w.chip).symm hk ?_
      split
      · exact hc _
      · exact hf _
  wire w := by
    cases hs : same (q w.chip) with
    | true => rw [h.unchanged w hs]; exact ⟨[], by simp, by simp⟩
    | false =>
      obtain ⟨-, -, hw, -⟩ := h.changed w hs
      exact ⟨_, hw, fun x hx => hT _ x (List.mem_of_mem_take hx)⟩
  error w e' he := by
    cases hs : same (q w.chip) with
    | true => rw [h.unchanged w hs] at he; cases he
    | false =>
      obtain ⟨hr, -⟩ := h.changed w hs
      rw [he] at hr
      split at hr <;> cases hr
      exact hX
  usb w := by
    cases hs : same (q w.chip) with
    | true => rw [h.unchanged w hs]; exact ⟨0, by rw [shift_zero]⟩
    | false => exact ⟨_, (h.changed w hs).2.2.2.2⟩

end Frames

/-! ## Retrying a put that failed -/

section Retry

variable {A V : Type} [DecidableEq A] {q : σ → σ} {nf : ξ → A × V} {e : ε} {same same' : σ → Bool}
  {ws ws' : σ → List (A × V)} {commit fails commit' fails' : σ → σ} {ns ns' : σ → List ν}
  {put put' : M σ ξ ν ε ℕ} {regs : σ → List (A × V)}

/-- The registers of a control have one set of addresses, whatever is cached, and the flags that the
view `q` hides are not part of them. -/
structure Image (q : σ → σ) (regs : σ → List (A × V)) : Prop where
  /-- The view decides the image. -/
  view : ∀ s, regs (q s) = regs s
  /-- The addresses are fixed. -/
  addrs : ∀ s t, (regs s).map Prod.fst = (regs t).map Prod.fst
  /-- Each address is named once. -/
  nodup : ∀ s, ((regs s).map Prod.fst).Nodup

/-- After a put that failed at its transfer `k` and a later put that returned no error, with nothing
done to the control in between, the device holds the image of the cached value exactly when the later
put wrote, or the first `k` writes of the failed put agree with the image of the value that it left in
the cache, and the device already held the rest of that image. -/
theorem Puts.retry_iff (hi : Image q regs) (h : Puts q nf e put same ws commit fails ns)
    (h' : Puts q nf e put' same' ws' commit' fails' ns') {w w₁ w₂ w₃ : World σ ξ ν} {e' : ε} {r : ℕ}
    (hp : put w = (.error e', w₁)) (hp' : put' w₂ = (.ok r, w₃))
    (hws : ws (q w.chip) = regs (commit (q w.chip))) (d : A → V)
    (hws' : same' (q w₂.chip) = false → ws' (q w₂.chip) = regs (commit' (q w₂.chip)))
    (hsame : same' (q w₂.chip) = same' (q w₁.chip)) (hregs : regs w₂.chip = regs w₁.chip)
    (hdev : ∀ a ∈ (regs w₁.chip).map Prod.fst,
      Registers.apply d (w₂.wire.map nf) a = Registers.apply d (w₁.wire.map nf) a) :
    Registers.Holds (Registers.apply d (w₃.wire.map nf)) (regs w₃.chip) ↔
      same' (q (fails (q w.chip))) = false ∨
        (let k := delivered w.usb (ws (q w.chip)).length
        (ws (q w.chip)).take k = (regs (fails (q w.chip))).take k ∧
          Registers.Holds (Registers.apply d (w.wire.map nf)) ((regs (fails (q w.chip))).drop k)) := by
  obtain ⟨-, -, -, hc, hw, -⟩ := h.of_error hp
  have hfail : regs w₁.chip = regs (fails (q w.chip)) := by rw [← hi.view, hc, hi.view]
  rw [← hc, ← hsame]
  rcases h'.of_ok hp' with ⟨hs, -, rfl⟩ | ⟨hs, -, hc', hw', -⟩
  · -- The later put found its value cached: the device is as the failed put left it.
    have hdev' : Registers.Holds (Registers.apply d (w₃.wire.map nf)) (regs w₃.chip) ↔
        Registers.Holds (Registers.apply d (w₁.wire.map nf)) (regs w₁.chip) := by
      rw [hregs]
      exact forall₂_congr fun x hx => by rw [hdev x.1 (List.mem_map_of_mem hx)]
    rw [hdev', hs, hw, Registers.apply_append, hfail, hws]
    simp only [Bool.true_eq_false, false_or]
    exact Registers.holds_apply_take_iff (hi.addrs _ _) (hi.nodup _) _ _
  -- The later put wrote the whole image.
  · have himg : regs w₃.chip = ws' (q w₂.chip) := by rw [← hi.view, hc', hi.view, hws' hs]
    have hn : ((ws' (q w₂.chip)).map Prod.fst).Nodup := hws' hs ▸ hi.nodup _
    rw [hs, himg, hw', Registers.apply_append]
    simp only [true_or, iff_true]
    exact Registers.holds_apply hn _

end Retry

end Bus
