import BabyfacePro.Core.Probe
import BabyfacePro.Lib.Ledger

/-!
# What a card holds

A probe takes the card, a reference to the device, its autosuspend, six arrays, and for each place in
them two URBs and two buffers. It may fail at any of these, or at any call in between, and then the
same teardown runs as after a disconnect, on whatever there is. `probe_accounts` says that the ledger of
the card is balanced at the end in each case: nothing is lost, given back twice, or used when it is gone.
-/

namespace BabyfacePro

namespace Unwind

open Ledger (Entry Books)
open Bus.M (get modify throw notify attempt each when recv)

/-! ## The resources -/

/-- The three kinds of the arrays of a direction. -/
inductive Table where
  | urbs
  | bufs
  | dmas
  deriving DecidableEq, Repr

/-- What the pointers of `chip` lead to. The IN arrays are those of capture. -/
inductive Memory where
  | array (t : Table) (d : Dir)
  | urb (d : Dir) (i : ℕ)
  | buffer (d : Dir) (i : ℕ)
  deriving DecidableEq, Repr

/-- What a card has taken. -/
inductive Resource where
  /-- The card, with `chip` in it. -/
  | card
  /-- The reference of `usb_get_dev`. -/
  | dev
  /-- Autosuspend is disabled. -/
  | autosuspend
  | mem (m : Memory)
  deriving DecidableEq, Repr

/-- A call of the probe that may fail by itself. -/
inductive ProbeCall where
  | sndCardNew | setInterface | coldInit | preampRead | defaultMixer | applyFlags | pcmNew | managedBuffer
  | createMasters | createXpoints | createTrim | createPreamp | createFlags | createPanel | createEq
  | register
  deriving DecidableEq, Repr

/-- What a probe returns when it fails. -/
inductive ProbeError where
  | enodev
  | enomem
  /-- The error of a call. -/
  | failed (c : ProbeCall)
  deriving DecidableEq, Repr

/-- What the teardown goes by. -/
structure Holdings where
  nurbs : ℕ
  /-- The pointer is not null. -/
  ptr : Memory → Bool := fun _ => false
  /-- The interface's data is `chip`. -/
  intfdata : Bool := false
  shutdown : Bool := false

/-- A routine with the ledger of its card. -/
abbrev Hold := Bus.M Holdings Empty (Entry Resource) ProbeError

/-! ## Teardown -/

/-- The part of the loop body of `babyface_private_free` for a URB. -/
def freeUrb (d : Dir) (i : ℕ) : Hold Unit := do
  let chip ← get
  when (chip.ptr (.array .urbs d)) do
    notify (.use (.mem (.array .urbs d)))
    -- `usb_kill_urb`, and `usb_free_urb`.
    when (chip.ptr (.urb d i)) do
      notify (.use (.mem (.urb d i)))
      notify (.give (.mem (.urb d i)))

/-- The part for a buffer: `usb_free_coherent` does nothing for a null pointer. -/
def freeBuffer (d : Dir) (i : ℕ) : Hold Unit := do
  let chip ← get
  when (chip.ptr (.array .bufs d) && chip.ptr (.array .dmas d)) do
    notify (.use .dev)
    notify (.use (.mem (.array .bufs d)))
    notify (.use (.mem (.array .dmas d)))
    when (chip.ptr (.buffer d i)) (notify (.give (.mem (.buffer d i))))

/-- `kfree` of an array. -/
def freeArray (t : Table) (d : Dir) : Hold Unit := do
  let chip ← get
  when (chip.ptr (.array t d)) (notify (.give (.mem (.array t d))))

/-- `babyface_private_free`. -/
def babyfacePrivateFree : Hold Unit := do
  let chip ← get
  notify (.use .card)
  when (chip.ptr (.array .urbs .capture)) (each (List.range chip.nurbs) fun i => do
    freeUrb .capture i
    freeUrb .playback i
    freeBuffer .capture i
    freeBuffer .playback i)
  freeArray .urbs .capture
  freeArray .urbs .playback
  freeArray .bufs .capture
  freeArray .bufs .playback
  freeArray .dmas .capture
  freeArray .dmas .playback
  notify (.give .dev)

/-- `snd_card_free`, at once or with the last file. -/
def sndCardFree : Hold Unit := do
  babyfacePrivateFree
  notify (.give .card)

/-- `babyface_stream_kill`. -/
def killUrbs : Hold Unit := do
  let chip ← get
  each (List.range chip.nurbs) fun i => do
    notify (.use (.mem (.array .urbs .capture)))
    notify (.use (.mem (.urb .capture i)))
    notify (.use (.mem (.array .urbs .playback)))
    notify (.use (.mem (.urb .playback i)))

/-- `usb_enable_autosuspend`. -/
def usbEnableAutosuspend : Hold Unit := do
  notify (.use .dev)
  notify (.give .autosuspend)

/-- `babyface_disconnect`, with a session up or not. The card is freed later, with its last file. -/
def babyfaceDisconnect (streaming : Bool) : Hold Unit := do
  let chip ← get
  when chip.intfdata do
    modify fun c => { c with intfdata := false }
    notify (.use .card)
    when (!chip.shutdown) do
      modify fun c => { c with shutdown := true }
      when streaming killUrbs
      usbEnableAutosuspend

/-! ## Probe -/

/-- A call that works on the card and its device. -/
def call (c : ProbeCall) : Hold Unit := do
  notify (.use .card)
  notify (.use .dev)
  recv (.failed c) ()

/-- `kcalloc`, `usb_alloc_urb` or `usb_alloc_coherent`: the pointer stays null when it fails. -/
def alloc (m : Memory) : Hold Unit := do
  let got ← attempt (recv .enomem ())
  when got do
    notify (.take (.mem m))
    modify fun c => { c with ptr := Function.update c.ptr m true }

/-- The test for null pointers after some allocations. -/
def allThere (ms : List Memory) : Hold Unit := do
  let chip ← get
  if ms.all chip.ptr then pure () else throw .enomem

/-- The six arrays, in the order of their allocations. -/
def arrays : List Memory :=
  [.array .urbs .capture, .array .urbs .playback, .array .bufs .capture, .array .bufs .playback,
    .array .dmas .capture, .array .dmas .playback]

/-- What a place of the arrays has, in the order of the allocations. -/
def place (i : ℕ) : List Memory := [.urb .capture i, .urb .playback i, .buffer .capture i, .buffer .playback i]

/-- The loop body of the allocations of `babyface_probe`. -/
def allocPlace (i : ℕ) : Hold Unit := do
  each arrays fun m => notify (.use (.mem m))
  each (place i) alloc
  allThere (place i)

/-- `babyface_probe` between `usb_disable_autosuspend` and `usb_set_intfdata`. -/
def probeBody : Hold Unit := do
  call .setInterface
  call .coldInit
  let _ ← attempt (call .preampRead)
  call .defaultMixer
  call .applyFlags
  each arrays alloc
  allThere arrays
  let chip ← get
  each (List.range chip.nurbs) allocPlace
  each [.pcmNew, .managedBuffer, .createMasters, .createXpoints, .createTrim, .createPreamp, .createFlags,
    .createPanel, .createEq, .register] call

/-- `babyface_probe` of an interface that is the driver's or not. -/
def babyfaceProbe (ours : Bool) : Hold Unit := do
  when (!ours) (throw .enodev)
  recv (.failed .sndCardNew) ()
  notify (.take .card)
  notify (.take .dev)
  notify (.take .autosuspend)
  Ledger.onError probeBody (do
    modify fun c => { c with intfdata := false }
    usbEnableAutosuspend
    sndCardFree)
  modify fun c => { c with intfdata := true }

/-! ## What is held -/

/-- Everything that the pointers lead to, and what a probe takes before it can fail. -/
def Holdings.held (c : Holdings) : Resource → Bool
  | .mem m => c.ptr m
  | _ => true

/-- The place of an allocation in a probe. -/
def Memory.order : Memory → ℕ
  | .array .urbs .capture => 0
  | .array .urbs .playback => 1
  | .array .bufs .capture => 2
  | .array .bufs .playback => 3
  | .array .dmas .capture => 4
  | .array .dmas .playback => 5
  | .urb .capture i => 6 + 4 * i
  | .urb .playback i => 6 + 4 * i + 1
  | .buffer .capture i => 6 + 4 * i + 2
  | .buffer .playback i => 6 + 4 * i + 3

/-- Each allocation has its own place in the order. -/
theorem order_injective : Function.Injective Memory.order := by
  intro m m' h
  rcases m with ⟨_ | _ | _, _ | _⟩ | ⟨_ | _, i⟩ | ⟨_ | _, i⟩ <;>
    rcases m' with ⟨_ | _ | _, _ | _⟩ | ⟨_ | _, j⟩ | ⟨_ | _, j⟩ <;>
    simp only [Memory.order] at h <;> first | rfl | omega | skip
  all_goals
    have hij : i = j := by omega
    rw [hij]

/-- All six arrays are there. -/
def Holdings.Rooted (c : Holdings) : Prop := ∀ t d, c.ptr (.array t d) = true

/-- The pointers lead to what the first `p` allocations took, all of it or a part. -/
structure Reached (n p : ℕ) (c : Holdings) : Prop where
  nurbs : c.nurbs = n
  ahead (m : Memory) : p ≤ m.order → c.ptr m = false
  /-- The places are taken only once all the arrays are there. -/
  rooted : 6 < p → c.Rooted
  within : p ≤ 6 + 4 * n

/-- A probe at its `p`-th allocation. -/
structure Probing (n p : ℕ) (c : Holdings) (s : Resource → Bool) : Prop extends Reached n p c where
  held : s = c.held
  up : c.shutdown = false

/-! ## Allocations -/

section Alloc

variable {n p : ℕ} {c : Holdings} {s : Resource → Bool}

/-- A pointer that is set is one more allocation that is held. -/
theorem held_update (c : Holdings) (m : Memory) :
    Holdings.held { c with ptr := Function.update c.ptr m true } =
      Function.update c.held (.mem m) true := by
  funext r
  cases r with
  | mem m' =>
    rcases eq_or_ne m' m with rfl | hne
    · simp [Holdings.held]
    · rw [Function.update_of_ne (by simpa using hne)]
      exact Function.update_of_ne hne ..
  | _ => rw [Function.update_of_ne (by simp)]; rfl

/-- An allocation, whether it succeeds or not. -/
theorem Reached.next (h : Reached n p c) (hp : p < 6 + 4 * n) (hr : 6 ≤ p → c.Rooted) :
    Reached n (p + 1) c where
  nurbs := h.nurbs
  ahead m hm := h.ahead m (Nat.le_of_succ_le hm)
  rooted hp := hr (Nat.le_of_lt_succ hp)
  within := hp

/-- The pointer that an allocation sets. -/
theorem Reached.set (h : Reached n (p + 1) c) {m : Memory} (hm : m.order = p) :
    Reached n (p + 1) { c with ptr := Function.update c.ptr m true } where
  nurbs := h.nurbs
  ahead m' hm' := by
    have hne : m' ≠ m := by
      rintro rfl
      omega
    exact (Function.update_of_ne hne ..).trans (h.ahead m' hm')
  rooted hp t d := by
    simp only [Function.update_apply]
    split
    · rfl
    · exact h.rooted hp t d
  within := h.within

/-- `alloc`, at its place in the order, of what was not there yet. -/
theorem alloc_books {X : ProbeError → Holdings → (Resource → Bool) → Prop} (Y : Holdings → Prop)
    {m : Memory} (hm : m.order = p) (hp : p < 6 + 4 * n) (hr : 6 ≤ p → ∀ c, Y c → c.Rooted)
    (hY : ∀ c, Y c → Y { c with ptr := Function.update c.ptr m true }) :
    Books (fun c s => Probing n p c s ∧ Y c) (alloc m) (fun _ c s => Probing n (p + 1) c s ∧ Y c) X := by
  have hrecv : Books (fun c s => Probing n p c s ∧ Y c) (attempt (recv .enomem ()) : Hold Bool)
      (fun _ c s => Probing n p c s ∧ Y c) X := .attempt (.recv (fun _ _ h => h) fun _ _ h => h)
  refine hrecv.bind fun got => .when got (fun _ => ?_) fun _ c s h =>
    ⟨⟨h.1.next hp fun h6 => hr h6 c h.2, h.1.held, h.1.up⟩, h.2⟩
  refine Books.bind
    (Q := fun _ c s => Probing n p c c.held ∧ s = Function.update c.held (.mem m) true ∧ Y c)
    (.take fun c s h => ?_) fun _ => .modify fun c s h => ?_
  · obtain ⟨hp, hy⟩ := h
    obtain rfl := hp.held
    exact ⟨hp.ahead m hm.ge, hp, rfl, hy⟩
  · obtain ⟨hp', rfl, hy⟩ := h
    have hnext := hp'.next hp fun h6 => hr h6 c hy
    exact ⟨⟨hnext.set hm, (held_update c m).symm, hp'.up⟩, hY c hy⟩

/-- The first `i` places are all there, and the arrays. -/
def Holdings.Full (i : ℕ) (c : Holdings) : Prop := ∀ m : Memory, m.order < 6 + 4 * i → c.ptr m = true

/-- Where the first places are all there, so are the arrays. -/
theorem Holdings.Full.rooted {i : ℕ} (h : c.Full i) : c.Rooted := fun t d =>
  h (.array t d) (Nat.lt_add_right (4 * i) (by cases t <;> cases d <;> decide))

/-- One more pointer takes none away. -/
theorem Holdings.Full.set {i : ℕ} (h : c.Full i) (m : Memory) :
    Holdings.Full i { c with ptr := Function.update c.ptr m true } := fun m' hm' => by
  simp only [Function.update_apply]
  split
  · rfl
  · exact h m' hm'

/-- Allocations in a row. -/
theorem allocs_books {X : ProbeError → Holdings → (Resource → Bool) → Prop} (Y : Holdings → Prop)
    (hY : ∀ c m, Y c → Y { c with ptr := Function.update c.ptr m true }) {ms : List Memory}
    (hr : 6 < p + ms.length → ∀ c, Y c → c.Rooted)
    (hms : ms.map Memory.order = List.range' p ms.length) (hp : p + ms.length ≤ 6 + 4 * n) :
    Books (fun c s => Probing n p c s ∧ Y c) (each ms alloc)
      (fun _ c s => Probing n (p + ms.length) c s ∧ Y c) X := by
  induction ms generalizing p with
  | nil => exact .pure fun _ _ h => h
  | cons m ms ih =>
    rw [List.map_cons, List.length_cons, List.range'_succ, List.cons.injEq] at hms
    rw [List.length_cons, show p + (ms.length + 1) = p + 1 + ms.length by omega] at hp hr ⊢
    have hfirst := alloc_books (n := n) (X := X) Y hms.1 (by omega) (fun h6 => hr (by omega)) fun c => hY c m
    exact hfirst.bind fun _ => ih hr hms.2 hp

/-- A test after allocations. -/
theorem allThere_books {X : ProbeError → Holdings → (Resource → Bool) → Prop} {Y : Holdings → Prop}
    {ms : List Memory} (hX : ∀ e c s, Probing n p c s → X e c s) :
    Books (fun c s => Probing n p c s ∧ Y c) (allThere ms)
      (fun _ c s => Probing n p c s ∧ Y c ∧ ∀ m ∈ ms, c.ptr m = true) X := by
  refine .get fun c => .ite _ (fun hall => .pure ?_) fun _ => .throw ?_
  · rintro _ s ⟨rfl, hp, hy⟩
    exact ⟨hp, hy, List.all_eq_true.mp hall⟩
  · rintro _ s ⟨rfl, hp, -⟩
    exact hX _ _ _ hp

/-- What an error leaves to the teardown. -/
def Stuck (n : ℕ) (c : Holdings) (s : Resource → Bool) : Prop := ∃ p, Probing n p c s

/-- A call that may fail takes nothing. -/
theorem call_books {Y X : Holdings → (Resource → Bool) → Prop} (k : ProbeCall)
    (hY : ∀ c s, Y c s → s = c.held) (hX : ∀ c s, Y c s → X c s) :
    Books Y (call k) (fun _ => Y) fun _ => X := by
  have huse (r : Resource) (hr : ∀ c : Holdings, c.held r = true) :
      Books Y (notify (.use r) : Hold Unit) (fun _ => Y) fun _ => X :=
    .use fun c s h => by
      rw [hY c s h]
      exact hr c
  exact (huse .card fun _ => rfl).bind fun _ => (huse .dev fun _ => rfl).bind fun _ =>
    .recv (fun _ _ h => h) hX

/-- The arrays. -/
theorem arrays_books : Books (Probing n 0) (each arrays alloc) (fun _ => Probing n 6) fun _ => Stuck n :=
  (allocs_books (fun _ => True) (fun _ _ h => h) (fun h => absurd h (by decide)) rfl
    (Nat.le_add_right 6 _)).weaken (fun _ _ h => ⟨h, trivial⟩) (fun _ _ _ h => h.1) fun _ _ _ h => h

/-- The test that all arrays are there. -/
theorem arraysThere_books : Books (Probing n 6) (allThere arrays)
    (fun _ c s => Probing n 6 c s ∧ c.Full 0) fun _ => Stuck n := by
  refine (allThere_books (Y := fun _ => True) fun _ c s h => ⟨6, h⟩).weaken
    (fun _ _ h => ⟨h, trivial⟩) ?_ fun _ _ _ h => h
  rintro _ c s ⟨hp, -, hthere⟩
  refine ⟨hp, fun m hm => hthere m ?_⟩
  rcases m with ⟨_ | _ | _, _ | _⟩ | ⟨_ | _, i⟩ | ⟨_ | _, i⟩ <;>
    first | (simp only [Memory.order] at hm; omega) | decide

/-- The allocations of a place follow one another. -/
theorem place_order (i : ℕ) :
    (place i).map Memory.order = List.range' (6 + 4 * i) (place i).length := by
  simp [place, Memory.order, List.range'_succ]

/-- A place. -/
theorem allocPlace_books {i : ℕ} (hi : i < n) :
    Books (fun c s => Probing n (6 + 4 * i) c s ∧ c.Full i) (allocPlace i)
      (fun _ c s => Probing n (6 + 4 * (i + 1)) c s ∧ c.Full (i + 1)) fun _ => Stuck n := by
  have huse : Books (fun c s => Probing n (6 + 4 * i) c s ∧ c.Full i)
      (each arrays fun m => notify (.use (.mem m)) : Hold Unit)
      (fun _ c s => Probing n (6 + 4 * i) c s ∧ c.Full i) fun _ => Stuck n := by
    refine .each fun m hm => .use fun c s h => ?_
    have horder : m.order < 6 := by
      revert m
      decide
    rw [h.1.held]
    exact h.2 m (Nat.lt_add_right (4 * i) horder)
  have hallocs := allocs_books (n := n) (X := fun _ => Stuck n) (Holdings.Full i) (fun c m h => h.set m)
    (fun _ c h => h.rooted) (place_order i) (show 6 + 4 * i + (place i).length ≤ 6 + 4 * n by
      simp only [place, List.length_cons, List.length_nil]; omega)
  refine huse.bind fun _ => hallocs.bind fun _ => (allThere_books fun _ c s h => ⟨_, h⟩).weaken
    (fun _ _ h => h) ?_ fun _ _ _ h => h
  rintro _ c s ⟨hp, hfull, hthere⟩
  refine ⟨hp, fun m hm => ?_⟩
  by_cases hlt : m.order < 6 + 4 * i
  · exact hfull m hlt
  -- The four that are left are those of the place.
  apply hthere
  rcases m with ⟨_ | _ | _, _ | _⟩ | ⟨_ | _, j⟩ | ⟨_ | _, j⟩ <;> simp only [Memory.order] at hm hlt
  all_goals
    first
      | omega
      | obtain rfl : j = i := by omega
        simp [place]

/-- Everything that may fail. -/
theorem probeBody_books : Books (Probing n 0) probeBody
    (fun _ c s => Probing n (6 + 4 * n) c s ∧ c.Full n) fun _ => Stuck n := by
  have hstart (k : ProbeCall) : Books (Probing n 0) (call k) (fun _ => Probing n 0) fun _ => Stuck n :=
    call_books k (fun _ _ h => h.held) fun _ _ h => ⟨0, h⟩
  -- The readback may fail, and the probe goes on.
  have hread : Books (Probing n 0) (attempt (call .preampRead)) (fun _ => Probing n 0)
      fun _ => Stuck n := .attempt (call_books _ (fun _ _ h => h.held) fun _ _ h => h)
  -- The places are allocated one after the other; the invariant counts the places that are full.
  have hloop : Books (fun c s => Probing n 6 c s ∧ c.Full 0) (each (List.range n) allocPlace)
      (fun _ c s => Probing n (6 + 4 * n) c s ∧ c.Full n) fun _ => Stuck n := by
    have hrange := Books.range (I := fun i c s => Probing n (6 + 4 * i) c s ∧ c.Full i) 0 n
      fun i _ hi => allocPlace_books (by omega)
    rw [Nat.zero_add] at hrange
    rw [List.range_eq_range']
    exact hrange
  refine (hstart _).bind fun _ => (hstart _).bind fun _ => hread.bind fun _ => (hstart _).bind fun _ =>
    (hstart _).bind fun _ => arrays_books.bind fun _ => arraysThere_books.bind fun _ => .get fun c => ?_
  refine Books.bind (Q := fun _ c s => Probing n (6 + 4 * n) c s ∧ c.Full n) ?_ fun _ =>
    .each fun k _ => call_books k (fun _ _ h => h.1.held) fun _ _ h => ⟨_, h.1⟩
  rintro w s ⟨rfl, h⟩
  rw [h.1.nurbs]
  exact hloop w s h

end Alloc

/-! ## Frees -/

section Free

variable {n p : ℕ} {c : Holdings} {a : ℕ → Bool} {X : ProbeError → Holdings → (Resource → Bool) → Prop}

/-- What a teardown still holds: of what the pointers lead to, that at the places in `a`. -/
def left (a : ℕ → Bool) (c : Holdings) : Resource → Bool
  | .mem m => c.ptr m && a m.order
  | .autosuspend => false
  | _ => true

/-- A teardown, which leaves the pointers as they are. -/
def Freeing (a : ℕ → Bool) (c c' : Holdings) (s : Resource → Bool) : Prop := c' = c ∧ s = left a c

/-- What is given back is left no more. -/
theorem left_give (a : ℕ → Bool) (c : Holdings) (m : Memory) :
    Function.update (left a c) (.mem m) false = left (Function.update a m.order false) c := by
  funext r
  cases r with
  | mem m' =>
    rcases eq_or_ne m' m with rfl | hne
    · simp [left]
    · rw [Function.update_of_ne (by simpa using hne)]
      simp only [left, Function.update_of_ne fun h => hne (order_injective h)]
  | _ => rw [Function.update_of_ne (by simp)]; rfl

/-- A pointer that was never set leaves nothing. -/
theorem left_skip {m : Memory} (hm : c.ptr m = false) :
    left a c = left (Function.update a m.order false) c := by
  rw [← left_give, eq_comm, Function.update_eq_self_iff]
  simp [left, hm]

/-- The pointers are read. -/
theorem get_books {β : Type} {k : Holdings → Hold β} {R : β → Holdings → (Resource → Bool) → Prop}
    (h : Books (Freeing a c) (k c) R X) : Books (Freeing a c) (get >>= k) R X :=
  .get fun c' => by
    rintro w s ⟨rfl, hc, rfl⟩
    subst hc
    exact h w _ ⟨rfl, rfl⟩

/-- What is there is given back. -/
theorem give_books {m : Memory} (hm : a m.order = true) (hc : c.ptr m = true) :
    Books (Freeing a c) (notify (.give (.mem m)) : Hold Unit)
      (fun _ => Freeing (Function.update a m.order false) c) X :=
  .give fun c' s h => by
    obtain ⟨rfl, rfl⟩ := h
    exact ⟨by simp [left, hm, hc], rfl, left_give a c' m⟩

/-- An array that is there may be read. -/
theorem use_books {m : Memory} (hm : a m.order = true) (hc : c.ptr m = true) :
    Books (Freeing a c) (notify (.use (.mem m)) : Hold Unit) (fun _ => Freeing a c) X :=
  .use fun c' s h => by
    obtain ⟨rfl, rfl⟩ := h
    simp [left, hm, hc]

/-- Nothing is done for a pointer that is not set. -/
theorem skip_books {m : Memory} (hm : c.ptr m = false) (c' : Holdings) (s : Resource → Bool)
    (h : Freeing a c c' s) : Freeing (Function.update a m.order false) c c' s :=
  ⟨h.1, h.2.trans (left_skip hm)⟩

/-- A place is taken only once all the arrays are there. -/
theorem Reached.array_null (h : Reached n p c) {t : Table} {d : Dir} (ht : c.ptr (.array t d) = false)
    {m : Memory} (hm : 6 ≤ m.order) : c.ptr m = false := by
  by_contra hne
  rw [Bool.not_eq_false] at hne
  have hlt : m.order < p := by
    by_contra hle
    simp [h.ahead m (not_lt.mp hle)] at hne
  simp [h.rooted (by omega) t d] at ht

/-- The arrays from the `q`-th allocation on, and the places from the `p`-th. -/
def ahead (q p k : ℕ) : Bool := decide (if k < 6 then q ≤ k else p ≤ k)

/-- The next place is free. -/
theorem ahead_place {m : Memory} (hm : 6 ≤ m.order) :
    Function.update (ahead 0 m.order) m.order false = ahead 0 (m.order + 1) := by
  funext k
  simp only [Function.update_apply, ahead]
  split_ifs
  · omega
  all_goals simp
  all_goals omega

/-- The next array is free. -/
theorem ahead_array (p : ℕ) {m : Memory} (hm : m.order < 6) :
    Function.update (ahead m.order p) m.order false = ahead (m.order + 1) p := by
  funext k
  simp only [Function.update_apply, ahead]
  split_ifs
  all_goals simp
  all_goals omega

/-- What is ahead is still to be freed. -/
theorem ahead_self {m : Memory} (hm : 6 ≤ m.order) : ahead 0 m.order m.order = true := by
  simp [ahead, not_lt.mpr hm]

/-- A URB is freed, and its place with it. -/
theorem freeUrb_books (h : Reached n p c) (d : Dir) (i : ℕ) :
    Books (Freeing (ahead 0 (Memory.urb d i).order) c) (freeUrb d i)
      (fun _ => Freeing (ahead 0 ((Memory.urb d i).order + 1)) c) X := by
  have horder : 6 ≤ (Memory.urb d i).order := by cases d <;> simp only [Memory.order] <;> omega
  have harray : ahead 0 (Memory.urb d i).order (Memory.array .urbs d).order = true := by cases d <;> rfl
  rw [← ahead_place horder]
  refine get_books (.when _ (fun hc => ?_) fun hc => skip_books (h.array_null hc horder))
  exact (use_books harray hc).bind fun _ => .when _
    (fun hc => (use_books (ahead_self horder) hc).bind fun _ => give_books (ahead_self horder) hc)
    skip_books

/-- So is a buffer. -/
theorem freeBuffer_books (h : Reached n p c) (d : Dir) (i : ℕ) :
    Books (Freeing (ahead 0 (Memory.buffer d i).order) c) (freeBuffer d i)
      (fun _ => Freeing (ahead 0 ((Memory.buffer d i).order + 1)) c) X := by
  have horder : 6 ≤ (Memory.buffer d i).order := by cases d <;> simp only [Memory.order] <;> omega
  have harray (t : Table) : ahead 0 (Memory.buffer d i).order (Memory.array t d).order = true := by
    cases t <;> cases d <;> rfl
  rw [← ahead_place horder]
  have hdev : Books (Freeing (ahead 0 (Memory.buffer d i).order) c) (notify (.use .dev) : Hold Unit)
      (fun _ => Freeing (ahead 0 (Memory.buffer d i).order) c) X :=
    .use fun c' s h => by rw [h.2]; rfl
  refine get_books (.when _ (fun hc => ?_) fun hc => ?_)
  · obtain ⟨hbufs, hdmas⟩ := Bool.and_eq_true_iff.mp hc
    exact hdev.bind fun _ => (use_books (harray _) hbufs).bind fun _ =>
      (use_books (harray _) hdmas).bind fun _ =>
        .when _ (give_books (ahead_self horder)) skip_books
  · rcases Bool.and_eq_false_iff.mp hc with hc | hc
    · exact skip_books (h.array_null hc horder)
    · exact skip_books (h.array_null hc horder)

/-- So is an array, once its entries are. -/
theorem freeArray_books (p : ℕ) (t : Table) (d : Dir) :
    Books (Freeing (ahead (Memory.array t d).order p) c) (freeArray t d)
      (fun _ => Freeing (ahead ((Memory.array t d).order + 1) p) c) X := by
  have horder : (Memory.array t d).order < 6 := by cases t <;> cases d <;> decide
  rw [← ahead_array p horder]
  have hself : ahead (Memory.array t d).order p (Memory.array t d).order = true := by
    simp [ahead, horder]
  exact get_books (.when _ (give_books hself) skip_books)

/-- Past the last allocation there is nothing to free. -/
theorem left_end (h : Reached n p c) :
    left (ahead 6 (6 + 4 * n)) c = Function.update (Function.update Ledger.nothing .card true) .dev true := by
  funext r
  cases r with
  | mem m =>
    simp only [left, Function.update_apply, Ledger.nothing, reduceCtorEq, if_false, Bool.and_eq_false_iff]
    rcases lt_or_ge m.order (6 + 4 * n) with hlt | hle
    · right
      simp only [ahead, decide_eq_false_iff_not]
      split_ifs <;> omega
    · exact .inl (h.ahead m (h.within.trans hle))
  | _ => rfl

/-- Without the array of the IN URBs there is no place. -/
theorem left_noPlace (h : Reached n p c) (hc : c.ptr (.array .urbs .capture) = false) :
    left (ahead 0 6) c = left (ahead 0 (6 + 4 * n)) c := by
  funext r
  cases r with
  | mem m =>
    rcases lt_or_ge m.order 6 with hlt | hle
    · simp [left, ahead, hlt]
    · simp [left, h.array_null hc hle]
  | _ => rfl

/-- babyface_private_free gives back all but the card. -/
theorem babyfacePrivateFree_books (h : Reached n p c) :
    Books (Freeing (fun _ => true) c) babyfacePrivateFree
      (fun _ _ s => s = Function.update Ledger.nothing .card true) X := by
  -- Nothing is freed before the clean-up begins.
  have hall : (fun _ => true) = ahead 0 6 := by
    funext k
    simp only [ahead]
    split_ifs <;> simp
    omega
  -- Each place is freed in the order of its four parts.
  have hplaces : Books (Freeing (ahead 0 6) c)
      (each (List.range n) fun i => do
        freeUrb .capture i
        freeUrb .playback i
        freeBuffer .capture i
        freeBuffer .playback i)
      (fun _ => Freeing (ahead 0 (6 + 4 * n)) c) X := by
    have hrange := Books.range (X := X) (I := fun i => Freeing (ahead 0 (6 + 4 * i)) c) 0 n
      fun i _ _ => (freeUrb_books h .capture i).bind fun _ => (freeUrb_books h .playback i).bind fun _ =>
        (freeBuffer_books h .capture i).bind fun _ => freeBuffer_books h .playback i
    rw [Nat.zero_add] at hrange
    rw [List.range_eq_range']
    exact hrange
  have hcard (a : ℕ → Bool) : Books (Freeing a c) (notify (.use .card) : Hold Unit)
      (fun _ => Freeing a c) X := .use fun c' s h => by rw [h.2]; rfl
  rw [hall]
  refine get_books ((hcard _).bind fun _ => ?_)
  -- Without the arrays no place was ever full, and the loop is skipped.
  refine Books.bind (Q := fun _ => Freeing (ahead 0 (6 + 4 * n)) c) (.when _ (fun _ => ?_) fun hc => ?_)
    fun _ => (freeArray_books _ .urbs .capture).bind fun _ => (freeArray_books _ .urbs .playback).bind
      fun _ => (freeArray_books _ .bufs .capture).bind fun _ => (freeArray_books _ .bufs .playback).bind
      fun _ => (freeArray_books _ .dmas .capture).bind fun _ => (freeArray_books _ .dmas .playback).bind
      fun _ => .give fun c' s hs => ?_
  · rw [h.nurbs]
    exact hplaces
  · rintro c' s ⟨rfl, rfl⟩
    exact ⟨rfl, left_noPlace h hc⟩
  -- The last array is freed, and only the card is left.
  · rw [hs.2, show (Memory.array .dmas .playback).order + 1 = 6 from rfl, left_end h]
    refine ⟨Function.update_self .., ?_⟩
    rw [Function.update_idem, Function.update_eq_self_iff]
    rfl

end Free

/-! ## The whole of it -/

section Whole

variable {n : ℕ} {X : ProbeError → Holdings → (Resource → Bool) → Prop}

/-- A card whose autosuspend is enabled again. -/
def Parted (n : ℕ) (c : Holdings) (s : Resource → Bool) : Prop :=
  (∃ p, Reached n p c) ∧ s = left (fun _ => true) c

/-- snd_card_free leaves nothing. -/
theorem sndCardFree_books : Books (Parted n) sndCardFree (fun _ _ s => s = Ledger.nothing) X := by
  refine Books.bind (Q := fun _ _ s => s = Function.update Ledger.nothing .card true) ?_
    fun _ => .give fun c' s hs => ?_
  · rintro w s ⟨⟨p, hp⟩, hs⟩
    exact babyfacePrivateFree_books hp w s ⟨rfl, hs⟩
  · rw [hs]
    refine ⟨Function.update_self .., ?_⟩
    rw [Function.update_idem, Function.update_eq_self_iff]
    rfl

/-- The end of a probe and of a disconnect takes nothing with it. -/
theorem usbEnableAutosuspend_books : Books (fun c s => (∃ p, Reached n p c) ∧ s = c.held)
    usbEnableAutosuspend (fun _ => Parted n) X := by
  refine (Books.use fun c s h => by rw [h.2]; rfl).bind fun _ => .give fun c s ⟨hreached, hs⟩ => ?_
  rw [hs]
  refine ⟨rfl, hreached, ?_⟩
  funext r
  cases r with
  | mem m =>
    rw [Function.update_of_ne (by simp)]
    simp [Holdings.held, left]
  | autosuspend => exact Function.update_self ..
  | card | dev => rw [Function.update_of_ne (by simp)]; rfl

/-- `goto error`. -/
theorem unwind_books : Books (Stuck n)
    (do
      modify fun c => { c with intfdata := false }
      usbEnableAutosuspend
      sndCardFree)
    (fun _ _ s => ∀ _ : ProbeError, s = Ledger.nothing)
    fun _ _ s => ∀ _ : ProbeError, s = Ledger.nothing := by
  refine Books.bind (Q := fun _ c s => (∃ p, Reached n p c) ∧ s = c.held) (.modify ?_) fun _ => ?_
  · rintro c s ⟨p, hp⟩
    exact ⟨⟨p, hp.nurbs, hp.ahead, hp.rooted, hp.within⟩, hp.held⟩
  · exact usbEnableAutosuspend_books.bind fun _ => sndCardFree_books.weaken (fun _ _ h => h)
      (fun _ _ _ h _ => h) fun _ _ _ h => h

/-- A card whose probe has returned 0. -/
def Bound (n : ℕ) (c : Holdings) (s : Resource → Bool) : Prop :=
  Probing n (6 + 4 * n) c s ∧ c.Full n ∧ c.intfdata = true

/-- `babyface_probe` takes everything, or nothing is left of it. -/
theorem babyfaceProbe_books (ours : Bool) :
    Books (fun c s => c = { nurbs := n } ∧ s = Ledger.nothing) (babyfaceProbe ours) (fun _ => Bound n)
      fun _ _ s => s = Ledger.nothing := by
  -- A unit of another driver, or a card that is not made, is left before anything is taken.
  refine Books.bind (Q := fun _ c s => c = { nurbs := n } ∧ s = Ledger.nothing)
    (.when _ (fun _ => .throw fun _ _ h => h.2) fun _ _ _ h => h) fun _ => ?_
  refine Books.bind (Q := fun _ c s => c = { nurbs := n } ∧ s = Ledger.nothing)
    (.recv (fun _ _ h => h) fun _ _ h => h.2) fun _ => ?_
  -- The card first, then the device, then what hangs on the card's memory.
  refine Books.bind (.take (Q := fun _ c s =>
    c = { nurbs := n } ∧ s = Function.update Ledger.nothing .card true) fun c s h => ?_) fun _ => ?_
  · obtain ⟨rfl, rfl⟩ := h
    exact ⟨rfl, rfl, rfl⟩
  refine Books.bind (.take (Q := fun _ c s => c = { nurbs := n } ∧
    s = Function.update (Function.update Ledger.nothing .card true) .dev true) fun c s h => ?_) fun _ => ?_
  · obtain ⟨rfl, rfl⟩ := h
    exact ⟨rfl, rfl, rfl⟩
  refine Books.bind (.take (Q := fun _ => Probing n 0) fun c s h => ?_) fun _ => ?_
  · obtain ⟨rfl, rfl⟩ := h
    refine ⟨rfl, ⟨rfl, fun _ _ => rfl, fun h => absurd h (by decide), Nat.zero_le _⟩, ?_, rfl⟩
    funext r
    cases r <;> rfl
  -- An error past this point is unwound by the labels.
  refine (Ledger.Books.onError probeBody_books unwind_books).bind fun _ => .modify ?_
  rintro c s ⟨hp, hfull⟩
  exact ⟨⟨⟨hp.nurbs, hp.ahead, hp.rooted, hp.within⟩, hp.held, hp.up⟩, hfull, rfl⟩

/-- The kills read the URBs that are there. -/
theorem killUrbs_books : Books (fun c s => Reached n (6 + 4 * n) c ∧ s = c.held ∧ c.Full n) killUrbs
    (fun _ c s => Reached n (6 + 4 * n) c ∧ s = c.held ∧ c.Full n) X := by
  refine .get fun c => ?_
  refine Books.weaken (P := fun c' s => c' = c ∧ Reached n (6 + 4 * n) c ∧ s = c.held ∧ c.Full n)
    (Q := fun _ c' s => c' = c ∧ Reached n (6 + 4 * n) c ∧ s = c.held ∧ c.Full n) (.each fun i hi => ?_)
    (fun _ _ h => h) (fun _ c' s h => h.1 ▸ h.2) fun _ _ _ h => h
  -- All the places are full, so each kill finds its URB.
  have huse (m : Memory) (hm : m.order < 6 + 4 * c.nurbs) :
      Books (fun c' s => c' = c ∧ Reached n (6 + 4 * n) c ∧ s = c.held ∧ c.Full n)
        (notify (.use (.mem m)) : Hold Unit)
        (fun _ c' s => c' = c ∧ Reached n (6 + 4 * n) c ∧ s = c.held ∧ c.Full n) X :=
    .use fun c' s ⟨_, hreached, hs, hfull⟩ => by
      rw [hs]
      rw [hreached.nurbs] at hm
      exact hfull m hm
  have hlt := List.mem_range.mp hi
  refine (huse _ ?_).bind fun _ => (huse _ ?_).bind fun _ => (huse _ ?_).bind fun _ => huse _ ?_
  all_goals
    simp only [Memory.order]
    omega

/-- `babyface_disconnect`. -/
theorem babyfaceDisconnect_books (streaming : Bool) :
    Books (Bound n) (babyfaceDisconnect streaming) (fun _ => Parted n) X := by
  refine .get fun c => .when _ (fun _ => ?_) ?_
  -- A card that is bound is up, with every place full.
  · refine Books.bind
      (Q := fun _ c' s => (Reached n (6 + 4 * n) c' ∧ s = c'.held ∧ c'.Full n) ∧ c.shutdown = false)
      (.modify ?_) fun _ => (Books.use fun _ s h => by rw [h.1.2.1]; rfl).bind fun _ =>
        .when _ (fun _ => ?_) ?_
    · rintro _ s ⟨rfl, hp, hfull, -⟩
      exact ⟨⟨⟨hp.nurbs, hp.ahead, hp.rooted, hp.within⟩, hp.held, hfull⟩, hp.up⟩
    · refine Books.bind (Q := fun _ c s => Reached n (6 + 4 * n) c ∧ s = c.held ∧ c.Full n)
        (.modify fun _ s ⟨⟨hp, hs, hfull⟩, _⟩ => ?_) fun _ => ?_
      · exact ⟨⟨hp.nurbs, hp.ahead, hp.rooted, hp.within⟩, hs, hfull⟩
      · exact (Books.when _ (fun _ => killUrbs_books) fun _ _ _ h => h).bind fun _ =>
          usbEnableAutosuspend_books.weaken (fun _ _ h => ⟨⟨_, h.1⟩, h.2.1⟩) (fun _ _ _ h => h)
            fun _ _ _ h => h
    -- The driver data is there for as long as the card is bound.
    · rintro hdown _ s ⟨-, hup⟩
      simp [hup] at hdown
  · rintro hnull _ s ⟨rfl, -, -, hdata⟩
    simp [hdata] at hnull

end Whole

/-- A card before its probe, with the outcomes of everything that may fail. -/
def unbound (n : ℕ) (outcomes : ℕ → Bool) : Bus.World Holdings Empty (Entry Resource) :=
  ⟨{ nurbs := n }, [], [], outcomes⟩

/-- Whatever fails in a probe, the ledger of a card that is not bound is balanced; and a probe that
succeeds has all the URBs and buffers, and the ledger is balanced once the card is disconnected, with a
session up or not, and its last file is closed. -/
theorem probe_accounts (n : ℕ) (outcomes : ℕ → Bool) (ours : Bool) :
    match babyfaceProbe ours (unbound n outcomes) with
    | (.error _, w) => Ledger.Balanced w.notes
    | (.ok _, w) =>
      (∀ d i, i < n → w.chip.ptr (.urb d i) = true ∧ w.chip.ptr (.buffer d i) = true) ∧
        ∀ streaming, Ledger.Balanced ((do
          babyfaceDisconnect streaming
          sndCardFree) w).2.notes := by
  have hstart : (unbound n outcomes).chip = { nurbs := n } ∧
      (Ledger.nothing : Resource → Bool) = Ledger.nothing := ⟨rfl, rfl⟩
  obtain ⟨es, t, hnotes, hrun, hends⟩ := babyfaceProbe_books ours (unbound n outcomes) _ hstart
  rw [show (unbound n outcomes).notes = [] from rfl, List.nil_append] at hnotes
  split
  next e w hw =>
    -- A probe that failed has given everything back.
    rw [hw] at hnotes hends
    obtain rfl : t = Ledger.nothing := hends
    rw [hnotes]
    exact hrun
  next w hw =>
    -- A bound card is disconnected and then freed, and the two ledgers follow on one another.
    rw [hw] at hnotes hends
    obtain ⟨hp, hfull, hdata⟩ := hends
    refine ⟨fun d i hi => ⟨hfull _ ?_, hfull _ ?_⟩, fun streaming => ?_⟩
    · cases d <;> simp only [Memory.order] <;> omega
    · cases d <;> simp only [Memory.order] <;> omega
    have hfree := (babyfaceDisconnect_books (n := n) (X := fun _ _ s => s = Ledger.nothing) streaming).bind
      fun _ => sndCardFree_books
    obtain ⟨fs, u, hnotes', hrun', hends'⟩ := hfree w t ⟨hp, hfull, hdata⟩
    rw [Ledger.Balanced, hnotes', hnotes, Ledger.run_append, hrun]
    refine hrun'.trans (congrArg some ?_)
    revert hends'
    cases hv : ((do
      babyfaceDisconnect streaming
      sndCardFree) w).1 <;> exact fun h => h

end Unwind

end BabyfacePro
