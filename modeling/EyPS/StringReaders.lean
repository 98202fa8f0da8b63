/-
The readers of `bufferView` one outcome at a time, and the two string readers
against their neighbours: against `ReadView` and `ReadImpl`, which throw before
they move the cursor, and against the string writers of `dynamicBuffer`, whose
limit is one below the largest length the prefix can carry.
-/
import EyPS.Cursor
import EyPS.Grammar

namespace EyPS

/-! ## Outcomes of one read -/

namespace BufferView

/-- The view with the cursor `n` bytes further. -/
def advance (v : BufferView) (n : Nat) : BufferView := { v with curDataOffset := v.curDataOffset + n }

@[simp] theorem advance_dataView (v : BufferView) (n : Nat) : (v.advance n).dataView = v.dataView := rfl

@[simp] theorem advance_curDataOffset (v : BufferView) (n : Nat) :
    (v.advance n).curDataOffset = v.curDataOffset + n := rfl

theorem advance_advance (v : BufferView) (m n : Nat) : (v.advance m).advance n = v.advance (m + n) := by
  simp only [advance, Nat.add_assoc]

theorem canReadBytes_of_le {P : Platform} {v : BufferView} {n : Nat}
    (h : v.curDataOffset + n ≤ v.dataView.length) : v.canReadBytes P n = true :=
  decide_eq_true (Nat.le_trans (Nat.mod_le _ _) h)

/-- The number at the cursor. -/
def numberAt (v : BufferView) (size : Nat) (be : Bool) : Nat :=
  fromLE (ordered be (slice v.dataView v.curDataOffset size))

/-- The body the two string readers share: a little-endian length of `size` bytes, and
as many bytes. -/
def readPrefixed (P : Platform) (v : BufferView) (size : Nat) : Except Err (Bytes × BufferView) := do
  let (length, v) ← v.read P size false
  v.readChars P length

theorem readString_eq (P : Platform) (v : BufferView) : v.readString P = v.readPrefixed P 1 := rfl

theorem readLongString_eq (P : Platform) (v : BufferView) : v.readLongString P = v.readPrefixed P 2 := rfl

end BufferView

open BufferView

/-- What a guarded read of `n` bytes comes to, where it throws `e` or returns `x`. -/
inductive GuardedRead {α : Type} (P : Platform) (v : BufferView) (n : Nat) (e : Err) (x : α) :
    Except Err α → Prop
  | throws (hcan : v.canReadBytes P n = false) : GuardedRead P v n e x (.error e)
  /-- the guard lets a wrapped sum through -/
  | strays (hcan : v.canReadBytes P n = true) (hlen : v.dataView.length < v.curDataOffset + n) :
      GuardedRead P v n e x (.error .outOfBounds)
  | returns (hlen : v.curDataOffset + n ≤ v.dataView.length) : GuardedRead P v n e x (.ok x)

section Outcomes

variable (P : Platform) (v : BufferView) (n : Nat)

theorem guardedRead_ite {α : Type} (e : Err) (x : α) : GuardedRead P v n e x
    (if !v.canReadBytes P n then .error e
     else if v.dataView.length < v.curDataOffset + n then .error .outOfBounds else .ok x) := by
  cases hcan : v.canReadBytes P n with
  | false => exact .throws hcan
  | true =>
    by_cases hlen : v.dataView.length < v.curDataOffset + n
    · simpa [hlen] using GuardedRead.strays hcan hlen
    · simpa [hlen] using GuardedRead.returns (P := P) (e := e) (x := x) (Nat.not_lt.mp hlen)

theorem readView_guarded :
    GuardedRead P v n tooShort (slice v.dataView v.curDataOffset n, v.advance n) (v.readView P n) :=
  guardedRead_ite P v n _ _

theorem readChars_guarded :
    GuardedRead P v n stringTooShort (slice v.dataView v.curDataOffset n, v.advance n) (v.readChars P n) :=
  guardedRead_ite P v n _ _

theorem read_guarded (be : Bool) :
    GuardedRead P v n tooShort (v.numberAt n be, v.advance n) (v.read P n be) := by
  have h := readView_guarded P v n
  rw [BufferView.read]
  generalize v.readView P n = r at h
  cases h with
  | throws hcan => exact .throws hcan
  | strays hcan hlen => exact .strays hcan hlen
  | returns hlen => exact .returns hlen

end Outcomes

section Returns

variable {P : Platform} {v : BufferView}

/-- It returns exactly inside the view. -/
theorem GuardedRead.eq_ok_iff {α : Type} {n : Nat} {e : Err} {x y : α} {r : Except Err α}
    (h : GuardedRead P v n e x r) : r = .ok y ↔ v.curDataOffset + n ≤ v.dataView.length ∧ y = x := by
  cases h with
  | throws hcan =>
    have hover : ¬ v.curDataOffset + n ≤ v.dataView.length := fun hle => by
      rw [canReadBytes_of_le hle] at hcan
      cases hcan
    simp [hover]
  | strays hcan hlen => simp [Nat.not_le.mpr hlen]
  | returns hlen => simp [hlen, eq_comm]

/-- A string reader returns exactly where the length and the bytes it counts fit. -/
theorem readPrefixed_eq_ok {size : Nat} {x : Bytes × BufferView} : v.readPrefixed P size = .ok x ↔
    v.curDataOffset + (size + v.numberAt size false) ≤ v.dataView.length ∧
      x = (slice v.dataView (v.curDataOffset + size) (v.numberAt size false),
        v.advance (size + v.numberAt size false)) := by
  rw [readPrefixed, bind_eq_ok, ← advance_advance]
  simp only [(read_guarded P v size false).eq_ok_iff, (readChars_guarded P _ _).eq_ok_iff]
  refine ⟨fun h => ?_, fun h => ?_⟩
  · obtain ⟨y, ⟨hsize, rfl⟩, hchars, rfl⟩ := h
    exact ⟨by simpa [Nat.add_assoc] using hchars, rfl⟩
  · obtain ⟨hlen, rfl⟩ := h
    exact ⟨_, ⟨by omega, rfl⟩, by simpa [Nat.add_assoc] using hlen, rfl⟩

end Returns

/-! ## Failed reads -/

/-- The size of the length a string reader reads first. -/
def ReadOp.lengthPrefix : ReadOp → Option Nat
  | .readString => some 1
  | .readLongString => some 2
  | .read _ _ | .readView _ => none

/-- A string reader has no room for its length; the other reads have no length. -/
def ReadOp.PrefixRefused (P : Platform) (v : BufferView) (op : ReadOp) : Prop :=
  ∀ size ∈ op.lengthPrefix, v.canReadBytes P size = false

/-- The cursor and the remaining bytes are those of before the call. -/
def ReadOp.LeavesReader (P : Platform) (v : BufferView) (op : ReadOp) : Prop :=
  (op.abandoned P v).curDataOffset = v.curDataOffset ∧
    (op.abandoned P v).getRemainingBytes P = v.getRemainingBytes P

section Failed

variable {P : Platform} {v : BufferView} {what : String}

/-- Once the length is read the cursor is behind it, whatever the second guard says. -/
theorem afterPrefix_iff {size : Nat} {w : BufferView} (hsize : 0 < size)
    (hw : w = ((v.read P size false).toOption.map Prod.snd).getD v)
    (h : v.readPrefixed P size = .error (.lengthError what)) :
    (w.curDataOffset = v.curDataOffset ∧ w.getRemainingBytes P = v.getRemainingBytes P) ↔
      v.canReadBytes P size = false := by
  have hread := read_guarded P v size false
  rw [readPrefixed] at h
  generalize v.read P size false = r at hread h hw
  cases hread with
  | throws hcan =>
    obtain rfl : w = v := hw
    simp [hcan]
  | strays hcan hlen => cases h
  | returns hlen =>
    obtain rfl : w = v.advance size := hw
    refine iff_of_false (fun hcur => ?_) (by simp [canReadBytes_of_le hlen])
    have hcur := hcur.1
    rw [advance_curDataOffset] at hcur
    omega

end Failed

/-- **A read that throws leaves the reader** exactly if it is not a string reader whose
length could be read. -/
theorem failed_read_leaves_iff (P : Platform) (v : BufferView) (op : ReadOp) (what : String)
    (h : op.run P v = .error (.lengthError what)) : op.LeavesReader P v ↔ op.PrefixRefused P v := by
  have hbody : ∀ {size}, (v.readPrefixed P size >>= fun x => pure (Prod.map ReadValue.chars id x)) =
      .error (.lengthError what) → v.readPrefixed P size = .error (.lengthError what) := by
    intro size h
    generalize v.readPrefixed P size = r at h ⊢
    cases r with
    | error e => exact congrArg Except.error (Except.error.inj h)
    | ok x => cases h
  cases op with
  | read size be => simp [ReadOp.LeavesReader, ReadOp.PrefixRefused, ReadOp.abandoned, ReadOp.lengthPrefix]
  | readView n => simp [ReadOp.LeavesReader, ReadOp.PrefixRefused, ReadOp.abandoned, ReadOp.lengthPrefix]
  | readString =>
    have hiff := afterPrefix_iff (by decide) rfl (hbody h)
    simpa [ReadOp.LeavesReader, ReadOp.PrefixRefused, ReadOp.abandoned, ReadOp.lengthPrefix] using hiff
  | readLongString =>
    have hiff := afterPrefix_iff (by decide) rfl (hbody h)
    simpa [ReadOp.LeavesReader, ReadOp.PrefixRefused, ReadOp.abandoned, ReadOp.lengthPrefix] using hiff

/-- A long string whose length does not fit. -/
theorem failed_read_leaves_sample :
    ReadOp.readLongString.LeavesReader ⟨64, 64, .inr rfl, .inr rfl⟩ (.new [5]) :=
  (failed_read_leaves_iff ⟨64, 64, .inr rfl, .inr rfl⟩ (.new [5]) .readLongString
    "The desired data's length is larger than the available data" rfl).mpr (by
      intro size hsize
      cases hsize
      rfl)

/-- A string that counts five bytes where none follow: its length is gone. -/
theorem failed_string_moves :
    let P : Platform := ⟨64, 64, .inr rfl, .inr rfl⟩
    let v : BufferView := .new [5]
    ReadOp.readString.run P v = .error stringTooShort ∧
      (ReadOp.readString.abandoned P v).curDataOffset = 1 ∧ v.curDataOffset = 0 := by
  decide

/-! ## Strings written back -/

section WrittenBack

variable {P : Platform} {b s : Bytes} {v : BufferView} {size : Nat}

/-- A string read from the front, with the bytes it was read from. -/
theorem readPrefixed_new (h : (BufferView.new b).readPrefixed P size = .ok (s, v)) :
    s.length = fromLE (b.take size) ∧ s.length < 256 ^ size ∧
      toLE size s.length ++ s = b.take v.curDataOffset := by
  obtain ⟨hlen, hx⟩ := readPrefixed_eq_ok.mp h
  have hnumber : (BufferView.new b).numberAt size false = fromLE (b.take size) := by
    simp [numberAt, slice, BufferView.new, ordered]
  rw [hnumber] at hlen hx
  simp only [BufferView.new, Nat.zero_add] at hlen hx
  obtain ⟨rfl, rfl⟩ := Prod.mk.inj hx
  have hcount : (slice b size (fromLE (b.take size))).length = fromLE (b.take size) :=
    slice_length b size _ hlen
  have htake : (b.take size).length = size := by
    rw [List.length_take]
    omega
  have hlt : fromLE (b.take size) < 256 ^ size := by
    have hlt := fromLE_lt (b.take size)
    rwa [htake] at hlt
  have hcounted : toLE size (fromLE (b.take size)) = b.take size := by
    refine fromLE_inj (by rw [toLE_length, htake]) ?_
    rw [fromLE_toLE, Nat.mod_eq_of_lt hlt]
  refine ⟨hcount, by rwa [hcount], ?_⟩
  rw [hcount, hcounted, advance_curDataOffset, Nat.zero_add, List.take_add]
  rfl

/-- The writer of that prefix gives the bytes back exactly below its limit. -/
theorem writeChars_back_iff {n limit : Nat} (hsize : size ≤ 2)
    (h : (BufferView.new b).readPrefixed P size = .ok (s, v)) :
    (∃ buf, (DynamicBuffer.new n).writeChars P size limit s = .ok buf ∧
      buf.buffer = b.take v.curDataOffset) ↔
      fromLE (b.take size) < limit := by
  obtain ⟨hcount, hlt, hbytes⟩ := readPrefixed_new h
  have hmax : (toLE size s.length ++ s).length ≤ DynamicBuffer.maxSize P := by
    have hpow : 256 ^ size ≤ 256 ^ 2 := Nat.pow_le_pow_right (by decide) hsize
    have hvector : 2 ^ 31 - 1 ≤ DynamicBuffer.maxSize P := by
      have hwidth := P.sizeT_ge
      exact Nat.sub_le_sub_right (Nat.pow_le_pow_right (by decide) (by omega)) 1
    rw [List.length_append, toLE_length]
    omega
  rw [← hcount]
  refine ⟨fun hw => ?_, fun hw => ?_⟩
  · obtain ⟨buf, hok, -⟩ := hw
    exact (writeChars_eq_ok hok).1
  · obtain ⟨buf, hok⟩ := (writeChars_iff (b := DynamicBuffer.new n)).mpr ⟨hw, by simpa using hmax⟩
    refine ⟨buf, hok, ?_⟩
    rw [(writeChars_eq_ok hok).2.1, hbytes, DynamicBuffer.new_buffer, List.nil_append]

/-- Below the largest number of that size: not every byte of the length is 255. -/
theorem fromLE_lt_max_iff (hlen : (b.take size).length = size) :
    fromLE (b.take size) < 256 ^ size - 1 ↔ b.take size ≠ List.replicate size 255 := by
  have hlt := fromLE_lt (b.take size)
  have hmax : fromLE (List.replicate size (255 : UInt8)) = 256 ^ size - 1 := by
    clear hlen hlt
    induction size with
    | zero => rfl
    | succ size ih =>
      have hpos : 0 < 256 ^ size := Nat.pow_pos (by decide)
      have h255 : (255 : UInt8).toNat = 255 := rfl
      rw [List.replicate_succ, fromLE, ih, h255, Nat.pow_succ]
      omega
  rw [hlen] at hlt
  refine ⟨fun h he => ?_, fun h => ?_⟩
  · rw [he, hmax] at h
    omega
  · refine Nat.lt_of_le_of_ne (by omega) fun he => h (fromLE_inj ?_ (by rw [he, hmax]))
    rw [hlen, List.length_replicate]

end WrittenBack

/-- **The string writers invert the string readers** on every string but the longest
that the length can count. -/
theorem strings_written_back_iff (P : Platform) (b : Bytes) (initialSize : Nat) :
    (∀ s v, (BufferView.new b).readString P = .ok (s, v) →
      ((∃ buf, (DynamicBuffer.new initialSize).writeString P s = .ok buf ∧
        buf.buffer = b.take v.curDataOffset) ↔ b.take 1 ≠ [255])) ∧
    (∀ s v, (BufferView.new b).readLongString P = .ok (s, v) →
      ((∃ buf, (DynamicBuffer.new initialSize).writeLongString P s = .ok buf ∧
        buf.buffer = b.take v.curDataOffset) ↔ b.take 2 ≠ [255, 255])) := by
  have hcounted : ∀ {size s v}, (BufferView.new b).readPrefixed P size = .ok (s, v) →
      (b.take size).length = size := by
    intro size s v h
    have hlen := (readPrefixed_eq_ok.mp h).1
    simp only [BufferView.new] at hlen
    rw [List.length_take]
    omega
  refine ⟨fun s v h => ?_, fun s v h => ?_⟩
  · exact (writeChars_back_iff (by decide) h).trans (fromLE_lt_max_iff (hcounted h))
  · exact (writeChars_back_iff (by decide) h).trans (fromLE_lt_max_iff (hcounted h))

/-- One letter and what follows it. -/
theorem strings_written_back_sample :
    ∃ buf, (DynamicBuffer.new 0).writeString ⟨64, 64, .inr rfl, .inr rfl⟩ [97] = .ok buf ∧
      buf.buffer = ([1, 97, 9] : Bytes).take 2 :=
  ((strings_written_back_iff ⟨64, 64, .inr rfl, .inr rfl⟩ [1, 97, 9] 0).1 [97] ⟨[1, 97, 9], 2, []⟩ rfl).mpr
    (by decide)

/-- 255 letters: the reader takes the string, the writer refuses it. -/
theorem longest_string_refused :
    let P : Platform := ⟨64, 64, .inr rfl, .inr rfl⟩
    let s : Bytes := List.replicate 255 97
    (BufferView.new (255 :: s)).readString P = .ok (s, ⟨255 :: s, 256, []⟩) ∧
      (DynamicBuffer.new 0).writeString P s = .error DynamicBuffer.tooLarge := by
  intro P s
  have hlen : s.length = 255 := List.length_replicate
  refine ⟨?_, ?_⟩
  · rw [readString_eq, readPrefixed_eq_ok]
    have hnumber : (BufferView.new (255 :: s)).numberAt 1 false = 255 := rfl
    have hslice : slice (255 :: s) 1 255 = s := by
      rw [slice, List.drop_succ_cons, List.drop_zero, ← hlen, List.take_length]
    rw [hnumber]
    simp only [BufferView.new, advance, Nat.zero_add, List.length_cons, hlen, hslice]
    exact ⟨by decide, trivial⟩
  · rw [DynamicBuffer.writeString, DynamicBuffer.writeChars, if_pos (by omega)]

end EyPS
