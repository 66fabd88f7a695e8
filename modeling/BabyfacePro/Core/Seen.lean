import BabyfacePro.Lib.Fifo
import BabyfacePro.Regs

/-!
# The units seen before

A probe asks whether the unit was probed since the module was loaded. The table of keys has eight slots
that are filled in turn, so it knows the last eight units that were new to it.
-/

namespace BabyfacePro

/-! ## Strings -/

/-- A C string: its bytes before the terminating zero. -/
@[ext]
structure CString where
  chars : List U8
  nonzero : ∀ c ∈ chars, c ≠ 0

/-- The characters of a string that an array of `n` bytes holds besides the terminating zero. -/
def CString.truncate (s : CString) (n : ℕ) : CString where
  chars := s.chars.take (n - 1)
  nonzero c hc := s.nonzero c (List.mem_of_mem_take hc)

/-- An array of `n` bytes with a string in it. -/
structure CArray (n : ℕ) where
  str : CString
  fits : str.chars.length < n

/-- `strscpy` into an array of `n` bytes, which cuts the string to what fits. -/
def strscpy {n : ℕ} (hn : 0 < n) (src : CString) : CArray n where
  str := src.truncate n
  fits := by
    unfold CString.truncate
    rw [List.length_take]
    omega

/-- `strncmp` of two strings: zero when the first `n` bytes are the same, up to a terminating zero. -/
def strncmp : List U8 → List U8 → ℕ → ℤ
  | _, _, 0 => 0
  | s, t, n + 1 =>
    if s.headD 0 < t.headD 0 then -1
    else if t.headD 0 < s.headD 0 then 1
    else if s.headD 0 = 0 then 0
    else strncmp s.tail t.tail n

/-- It compares the first `n` characters. -/
theorem strncmp_eq_zero {s t : List U8} (hs : ∀ c ∈ s, c ≠ 0) (ht : ∀ c ∈ t, c ≠ 0) (n : ℕ) :
    strncmp s t n = 0 ↔ s.take n = t.take n := by
  have hpos : ∀ c : U8, c ≠ 0 → 0#8 < c := fun c hc => by
    rw [BitVec.lt_def]
    exact Nat.pos_of_ne_zero fun h => hc (BitVec.eq_of_toNat_eq h)
  -- The induction is on the number of characters that are left to compare.
  induction n generalizing s t with
  | zero => simp [strncmp]
  | succ n ih =>
    -- A string that ends is followed by a zero, which no other character is.
    cases s with
    | nil =>
      cases t with
      | nil => simp [strncmp]
      | cons b t =>
        have hb : b ≠ 0#8 := ht b List.mem_cons_self
        simp [strncmp, hb]
    | cons a s =>
      have ha : a ≠ 0 := hs a List.mem_cons_self
      cases t with
      | nil => simp [strncmp, hpos a ha]
      | cons b t =>
        have hrest := ih (fun c hc => hs c (List.mem_cons_of_mem a hc)) fun c hc => ht c (List.mem_cons_of_mem b hc)
        rw [List.take_succ_cons, List.take_succ_cons, List.cons.injEq]
        show (if a < b then -1 else if b < a then 1 else if a = 0 then 0 else strncmp s t n) = (0 : ℤ) ↔ _
        -- Two characters that differ decide at once, two that agree leave it to the rest.
        by_cases hlt : a < b
        · rw [if_pos hlt]
          simp [BitVec.ne_of_lt hlt]
        · rw [if_neg hlt]
          by_cases hgt : b < a
          · rw [if_pos hgt]
            simp [(BitVec.ne_of_lt hgt).symm]
          · have hab : a = b := BitVec.le_antisymm (BitVec.not_lt.mp hgt) (BitVec.not_lt.mp hlt)
            subst hab
            rw [if_neg hgt, if_neg ha]
            simpa using hrest

/-! ## The table -/

/-- `BF_SEEN_MAX`. -/
def BF_SEEN_MAX : ℕ := 8

/-- `BF_SEEN_KEYLEN`. -/
def BF_SEEN_KEYLEN : ℕ := 64

/-- The table has room for a device. -/
instance : NeZero BF_SEEN_MAX := ⟨by decide⟩

/-- What of `struct usb_device` names the unit. -/
structure UsbDevice where
  serial : Option CString
  dev_name : CString

/-- The key of a unit: its serial number, or the device's name where it has none. -/
def UsbDevice.key (dev : UsbDevice) : CString :=
  match dev.serial with
  | some serial => if serial.chars ≠ [] then serial else dev.dev_name
  | none => dev.dev_name

/-- `bf_seen_keys` and `bf_seen_next`. -/
structure SeenTable where
  keys : Fin BF_SEEN_MAX → CArray BF_SEEN_KEYLEN
  next : Fin BF_SEEN_MAX

/-- The table when the module is loaded. -/
def SeenTable.init : SeenTable := ⟨fun _ => ⟨⟨[], by simp⟩, by decide⟩, 0⟩

/-- `bf_seen_before`. -/
def bfSeenBefore (dev : UsbDevice) (t : SeenTable) : Bool × SeenTable :=
  if (List.finRange BF_SEEN_MAX).any fun i =>
      strncmp (t.keys i).str.chars dev.key.chars (BF_SEEN_KEYLEN - 1) = 0 then
    (true, t)
  else
    (false, ⟨Function.update t.keys t.next (strscpy (by decide) dev.key), t.next + 1⟩)

/-- The part of a unit's key that is compared and recorded. -/
def UsbDevice.key63 (dev : UsbDevice) : List U8 := dev.key.chars.take (BF_SEEN_KEYLEN - 1)

/-- The strings in the slots. -/
def SeenTable.strings (t : SeenTable) (i : Fin BF_SEEN_MAX) : List U8 := (t.keys i).str.chars

/-- A slot is found when it holds the key. -/
theorem strncmp_slot (t : SeenTable) (i : Fin BF_SEEN_MAX) (dev : UsbDevice) :
    strncmp (t.keys i).str.chars dev.key.chars (BF_SEEN_KEYLEN - 1) = 0 ↔ t.strings i = dev.key63 := by
  have hfits : (t.keys i).str.chars.length ≤ BF_SEEN_KEYLEN - 1 := Nat.le_sub_one_of_lt (t.keys i).fits
  rw [strncmp_eq_zero (t.keys i).str.nonzero dev.key.nonzero, List.take_of_length_le hfits]
  rfl

/-- What a call does, in terms of the strings. -/
theorem bfSeenBefore_cases (dev : UsbDevice) (t : SeenTable) :
    ((∃ i, t.strings i = dev.key63) ∧ bfSeenBefore dev t = (true, t)) ∨
      (¬ (∃ i, t.strings i = dev.key63) ∧ ∃ t', bfSeenBefore dev t = (false, t') ∧ t'.next = t.next + 1 ∧
        t'.strings = Function.update t.strings t.next dev.key63) := by
  have hany : ((List.finRange BF_SEEN_MAX).any fun i =>
      strncmp (t.keys i).str.chars dev.key.chars (BF_SEEN_KEYLEN - 1) = 0) = true ↔
      ∃ i, t.strings i = dev.key63 := by
    simp [strncmp_slot]
  unfold bfSeenBefore
  by_cases h : ∃ i, t.strings i = dev.key63
  -- The key is in a slot, and the table stays.
  · exact .inl ⟨h, if_pos (hany.mpr h)⟩
  -- The key is new, and takes the slot that is next.
  · refine .inr ⟨h, _, if_neg (fun he => h (hany.mp he)), rfl, ?_⟩
    funext i
    show (Function.update t.keys t.next (strscpy (by decide) dev.key) i).str.chars = _
    by_cases hi : i = t.next
    · subst hi
      rw [Function.update_self, Function.update_self]
      rfl
    · rw [Function.update_of_ne hi, Function.update_of_ne hi]
      rfl

/-- A device was seen if the table has its key. -/
theorem bfSeenBefore_fst (dev : UsbDevice) (t : SeenTable) :
    (bfSeenBefore dev t).1 = true ↔ ∃ i, t.strings i = dev.key63 := by
  obtain ⟨h, hcall⟩ | ⟨h, t', hcall, -⟩ := bfSeenBefore_cases dev t <;> rw [hcall]
  · exact iff_of_true rfl h
  · exact iff_of_false Bool.false_ne_true h

/-! ## Runs of calls -/

/-- The calls so far with their results, the latest first. -/
abbrev SeenLog := List (UsbDevice × Bool)

/-- One more call. -/
def seenCall (s : SeenTable × SeenLog) (dev : UsbDevice) : SeenTable × SeenLog :=
  ((bfSeenBefore dev s.1).2, (dev, (bfSeenBefore dev s.1).1) :: s.2)

/-- The table and the log after the calls of `devs`, from the load of the module on. -/
def seenRun (devs : List UsbDevice) : SeenTable × SeenLog := devs.foldl seenCall (.init, [])

/-- The recorded keys, the newest first: those of the calls that returned false. -/
def SeenLog.recorded (log : SeenLog) : List (List U8) := (log.filter fun c => !c.2).map fun c => c.1.key63

/-- The table holds the last eight recorded keys, which are pairwise different. -/
structure SeenInv (s : SeenTable × SeenLog) : Prop where
  holds : Fifo.Holds s.1.strings s.1.next [] (SeenLog.recorded s.2)
  nodup : ((SeenLog.recorded s.2).take BF_SEEN_MAX).Nodup

/-- Nothing was seen. -/
theorem SeenInv.init : SeenInv (.init, []) := ⟨Fifo.Holds.nil 0 [], List.nodup_nil⟩

/-- A key is found when it is among the last eight recorded. -/
theorem SeenInv.found_iff {s : SeenTable × SeenLog} (h : SeenInv s) {dev : UsbDevice}
    (hdev : dev.key.chars ≠ []) :
    (∃ i, s.1.strings i = dev.key63) ↔ dev.key63 ∈ (SeenLog.recorded s.2).take BF_SEEN_MAX := by
  refine h.holds.exists_slot_iff fun he => hdev ?_
  obtain hlen | hnil := List.take_eq_nil_iff.mp he
  · exact absurd hlen (by decide)
  · exact hnil

/-- One call keeps the table that of the last eight. -/
theorem SeenInv.call {s : SeenTable × SeenLog} (h : SeenInv s) {dev : UsbDevice} (hdev : dev.key.chars ≠ []) :
    SeenInv (seenCall s dev) := by
  -- A unit that is found is not recorded again.
  obtain ⟨-, hcall⟩ | ⟨hnew, t', hcall, hnext, hstrings⟩ := bfSeenBefore_cases dev s.1
  · have hrec : SeenLog.recorded ((dev, true) :: s.2) = SeenLog.recorded s.2 := rfl
    unfold seenCall
    rw [hcall]
    exact ⟨by rw [hrec]; exact h.holds, by rw [hrec]; exact h.nodup⟩
  -- A new key is the newest, and was not among the last eight.
  · have hrec : SeenLog.recorded ((dev, false) :: s.2) = dev.key63 :: SeenLog.recorded s.2 := rfl
    unfold seenCall
    rw [hcall]
    constructor
    · rw [hrec, hnext, hstrings]
      exact h.holds.push _
    · rw [hrec]
      show (dev.key63 :: (SeenLog.recorded s.2).take 7).Nodup
      have htake : (SeenLog.recorded s.2).take 7 = ((SeenLog.recorded s.2).take BF_SEEN_MAX).take 7 := by
        rw [List.take_take]
        rfl
      rw [List.nodup_cons, htake]
      refine ⟨fun hmem => hnew ((h.found_iff hdev).mpr (List.mem_of_mem_take hmem)), ?_⟩
      exact h.nodup.sublist (List.take_sublist _ _)

/-- The table holds the last devices that were seen, each of them once. -/
theorem seenRun_inv {devs : List UsbDevice} (h : ∀ dev ∈ devs, dev.key.chars ≠ []) : SeenInv (seenRun devs) :=
  List.foldlRecOn devs seenCall SeenInv.init fun _ hs dev hdev => hs.call (h dev hdev)

/-- After any calls, a call finds a unit exactly when an earlier call recorded its key and fewer than
eight have recorded theirs since; the keys in the table are pairwise different; and a call that finds its
unit changes nothing. -/
theorem seen_before_exact {devs : List UsbDevice} (h : ∀ dev ∈ devs, dev.key.chars ≠ []) {dev : UsbDevice}
    (hdev : dev.key.chars ≠ []) :
    ((bfSeenBefore dev (seenRun devs).1).1 = true ↔
        ∃ newer dev' older, (seenRun devs).2 = newer ++ (dev', false) :: older ∧ dev'.key63 = dev.key63 ∧
          newer.countP (fun c => !c.2) < 8) ∧
      (∀ i j, (seenRun devs).1.strings i ≠ [] → (seenRun devs).1.strings i = (seenRun devs).1.strings j → i = j) ∧
      ((bfSeenBefore dev (seenRun devs).1).1 = true → (bfSeenBefore dev (seenRun devs).1).2 = (seenRun devs).1) := by
  have hinv := seenRun_inv h
  generalize seenRun devs = s at hinv ⊢
  refine ⟨?_, fun i j hi hij => hinv.holds.injective hinv.nodup hi hij, ?_⟩
  -- The keys in the table are the newest eight of those that were recorded.
  · have hmem := Fifo.mem_take_filter_iff (n := 8) (x := dev.key63) (p := fun c : UsbDevice × Bool => !c.2)
      (f := fun c => c.1.key63) s.2
    rw [bfSeenBefore_fst, hinv.found_iff hdev]
    refine hmem.trans ⟨?_, ?_⟩
    · rintro ⟨newer, ⟨dev', b⟩, older, hlog, hb, hkey, hn⟩
      cases b with
      | false => exact ⟨newer, dev', older, hlog, hkey, hn⟩
      | true => exact absurd hb (by simp)
    · rintro ⟨newer, dev', older, hlog, hkey, hn⟩
      exact ⟨newer, (dev', false), older, hlog, rfl, hkey, hn⟩
  -- A call that finds its unit returns early.
  · intro htrue
    obtain ⟨-, hcall⟩ | ⟨-, t', hcall, -⟩ := bfSeenBefore_cases dev s.1
    · rw [hcall]
    · rw [hcall] at htrue
      exact absurd htrue (by simp)

/-- The serial number `1`. -/
def serialOne : UsbDevice := ⟨some ⟨[0x31], by decide⟩, ⟨[0x75], by decide⟩⟩

/-- A unit that is probed again is found. -/
theorem seen_before_exact_again :
    ((bfSeenBefore serialOne (seenRun [serialOne]).1).1 = true ↔
        ∃ newer dev' older, (seenRun [serialOne]).2 = newer ++ (dev', false) :: older ∧
          dev'.key63 = serialOne.key63 ∧ newer.countP (fun c => !c.2) < 8) ∧
      (∀ i j, (seenRun [serialOne]).1.strings i ≠ [] →
        (seenRun [serialOne]).1.strings i = (seenRun [serialOne]).1.strings j → i = j) ∧
      ((bfSeenBefore serialOne (seenRun [serialOne]).1).1 = true →
        (bfSeenBefore serialOne (seenRun [serialOne]).1).2 = (seenRun [serialOne]).1) :=
  seen_before_exact (by simp [serialOne, UsbDevice.key]) (by decide)

end BabyfacePro
