/-
Where a `dynamicBuffer` writes: `WriteToOffsetArray` to a place it is given,
the other writers to the cursor. The first refuses the place that ends with the
buffer, because its comparison is `>=`; the others only ever append, so that
after a `Seek` into the buffer cursor and bytes go apart.
-/
import EyPS.Overwrite
import EyPS.Script

namespace EyPS

open Overwrite

/-! ## Patches -/

/-- How `WriteToOffsetArray` can end otherwise. -/
inductive PatchErr
  /-- `std::runtime_error` -/
  | runtimeError (what : String)
  /-- a `memcpy` past the end of the vector -/
  | outOfBounds
  deriving DecidableEq

/-- Its exception. -/
def outOfBufferBounds : PatchErr := .runtimeError "Offset is out of buffer bounds"

namespace DynamicBuffer

/-- `WriteToOffsetArray`: what it throws, if it does, and the buffer. The sums are
taken in `size_t`. -/
def writeToOffsetArray (P : Platform) (b : DynamicBuffer) (data : Bytes) (offset : Nat) :
    Option PatchErr × DynamicBuffer :=
  let sum := (offset + data.length) % 2 ^ P.sizeT
  if b.buffer.length ≤ offset ∨ b.buffer.length ≤ sum ∨ b.capacity ≤ offset ∨ b.capacity ≤ sum then
    (some outOfBufferBounds, b)
  else if h : offset + data.length ≤ b.buffer.length then
    (none, { b with
      buffer := overwrite b.buffer offset data
      size_le := by
        have hsize := b.size_le
        rw [overwrite_length (by omega)]
        omega })
  -- the guard let a wrapped sum through
  else (some .outOfBounds, b)

/-- `WriteToOffset<T>(data, offset, bigEndian)` for an integer `T` of `size` bytes. -/
def writeToOffset (P : Platform) (b : DynamicBuffer) (size data offset : Nat) (bigEndian : Bool) :
    Option PatchErr × DynamicBuffer :=
  b.writeToOffsetArray P (ordered bigEndian (toLE size data)) offset

end DynamicBuffer

/-- A patch as it should be: where the data fits it is stored, and length, capacity and
cursor stay; where it does not the call throws and nothing changes. -/
structure Patched (b : DynamicBuffer) (data : Bytes) (offset : Nat) (r : Option PatchErr × DynamicBuffer) :
    Prop where
  fits : offset + data.length ≤ b.buffer.length → r.1 = none ∧ StoredAt b.buffer offset data r.2.buffer ∧
    r.2.buffer.length = b.buffer.length ∧ r.2.capacity = b.capacity ∧ r.2.curOffset = b.curOffset
  overruns : b.buffer.length < offset + data.length → r = (some outOfBufferBounds, b)

/-- The data starts in the buffer, and ends so far past it that the sum wraps to a
place in it again. -/
def WrapsInside (P : Platform) (b : DynamicBuffer) (data : Bytes) (offset : Nat) : Prop :=
  offset < b.buffer.length ∧ b.buffer.length < offset + data.length ∧
    (offset + data.length) % 2 ^ P.sizeT < b.buffer.length

section Patch

variable {P : Platform} {b : DynamicBuffer} {data : Bytes} {offset : Nat}

/-- The comparisons with the capacity decide nothing. -/
theorem writeToOffsetArray_throws (h : b.buffer.length ≤ offset ∨
    b.buffer.length ≤ (offset + data.length) % 2 ^ P.sizeT) :
    b.writeToOffsetArray P data offset = (some outOfBufferBounds, b) := by
  unfold DynamicBuffer.writeToOffsetArray
  dsimp only
  rw [if_pos]
  rcases h with h | h
  · exact .inl h
  · exact .inr (.inl h)

theorem writeToOffsetArray_passes (h : offset < b.buffer.length)
    (hsum : (offset + data.length) % 2 ^ P.sizeT < b.buffer.length) :
    (offset + data.length ≤ b.buffer.length → (b.writeToOffsetArray P data offset).1 = none ∧
      (b.writeToOffsetArray P data offset).2.buffer = overwrite b.buffer offset data ∧
      (b.writeToOffsetArray P data offset).2.capacity = b.capacity ∧
      (b.writeToOffsetArray P data offset).2.curOffset = b.curOffset) ∧
    (b.buffer.length < offset + data.length →
      b.writeToOffsetArray P data offset = (some .outOfBounds, b)) := by
  have hcap := b.size_le
  unfold DynamicBuffer.writeToOffsetArray
  dsimp only
  rw [if_neg (by omega)]
  constructor
  · intro hfits
    rw [dif_pos hfits]
    exact ⟨rfl, rfl, rfl, rfl⟩
  · intro hover
    rw [dif_neg (by omega)]

/-- Data that ends before the end of the buffer. -/
theorem patched_inside (hsize : b.buffer.length < 2 ^ P.sizeT) (h : offset + data.length < b.buffer.length) :
    Patched b data offset (b.writeToOffsetArray P data offset) := by
  have hsum : (offset + data.length) % 2 ^ P.sizeT < b.buffer.length := by
    rw [Nat.mod_eq_of_lt (by omega)]
    exact h
  obtain ⟨hok, hbuffer, hcap, hcur⟩ := (writeToOffsetArray_passes (by omega) hsum).1 (by omega)
  have hstored := storedAt_overwrite (d := data) (show offset ≤ b.buffer.length by omega)
  have hlen := hstored.length
  rw [← hbuffer] at hstored hlen
  exact ⟨fun _ => ⟨hok, hstored, by omega, hcap, hcur⟩, fun _ => by omega⟩

/-- Data that goes past it, the sum not wrapping back. -/
theorem patched_past (h : b.buffer.length < offset + data.length) (hwrap : ¬ WrapsInside P b data offset) :
    Patched b data offset (b.writeToOffsetArray P data offset) := by
  refine ⟨fun _ => by omega, fun _ => writeToOffsetArray_throws ?_⟩
  by_contra hpass
  rw [not_or] at hpass
  exact hwrap ⟨by omega, h, by omega⟩

end Patch

/-- **A patch is made or refused as it should be** exactly if its data does not end with
the buffer, nor so far past it that the sum wraps. -/
theorem patched_iff (P : Platform) (b : DynamicBuffer) (data : Bytes) (offset : Nat) (hdata : data ≠ [])
    (hsize : b.buffer.length < 2 ^ P.sizeT) :
    Patched b data offset (b.writeToOffsetArray P data offset) ↔
      offset + data.length ≠ b.buffer.length ∧ ¬ WrapsInside P b data offset := by
  have hpos := List.length_pos_iff.mpr hdata
  constructor
  · intro hp
    constructor
    · intro hend
      have hsum : (offset + data.length) % 2 ^ P.sizeT = b.buffer.length := by
        rw [hend]
        exact Nat.mod_eq_of_lt hsize
      have hthrow : b.writeToOffsetArray P data offset = (some outOfBufferBounds, b) :=
        writeToOffsetArray_throws (.inr (Nat.le_of_eq hsum.symm))
      have hok := (hp.fits (by omega)).1
      rw [hthrow] at hok
      cases hok
    · rintro ⟨hoffset, hover, hsum⟩
      have hthrow := hp.overruns hover
      rw [(writeToOffsetArray_passes hoffset hsum).2 hover] at hthrow
      exact absurd (congrArg Prod.fst hthrow) (by simp [outOfBufferBounds])
  · rintro ⟨hend, hwrap⟩
    by_cases hpast : b.buffer.length < offset + data.length
    · exact patched_past hpast hwrap
    · exact patched_inside hsize (by omega)

/-- Four bytes written to a buffer, its capacity as large. -/
def fourBytes : DynamicBuffer := ⟨[1, 2, 3, 4], 4, 4, Nat.le_refl 4⟩

theorem patched_sample :
    let P : Platform := ⟨64, 64, .inr rfl, .inr rfl⟩
    Patched fourBytes [8, 9] 1 (fourBytes.writeToOffsetArray P [8, 9] 1) :=
  (patched_iff ⟨64, 64, .inr rfl, .inr rfl⟩ fourBytes [8, 9] 1 (by decide) (by decide)).mpr
    ⟨by decide, fun h => absurd h.2.1 (by decide)⟩

/-- A number of four bytes over all of them: `WriteToOffset` throws. -/
theorem patch_at_end_refused :
    let P : Platform := ⟨64, 64, .inr rfl, .inr rfl⟩
    (fourBytes.writeToOffset P 4 7 0 true).1 = some outOfBufferBounds ∧
      ¬ Patched fourBytes (ordered true (toLE 4 7)) 0 (fourBytes.writeToOffset P 4 7 0 true) := by
  intro P
  have hthrow : (fourBytes.writeToOffset P 4 7 0 true).1 = some outOfBufferBounds := by decide
  refine ⟨hthrow, fun hp => ?_⟩
  have hok := (hp.fits (by decide)).1
  rw [hthrow] at hok
  cases hok

/-! ## The cursor -/

/-- `Seek`. -/
def DynamicBuffer.seek (b : DynamicBuffer) (offset : Nat) : DynamicBuffer := { b with curOffset := offset }

/-- A write, or a `Seek`. -/
inductive BufferAct
  | write (op : WriteOp)
  | seek (offset : Nat)

/-- The string writers, when they throw: the count may have been written by then. -/
def DynamicBuffer.abandonedChars (P : Platform) (b : DynamicBuffer) (size limit : Nat) (str : Bytes) :
    DynamicBuffer :=
  if limit ≤ str.length then b else (b.insertArray P (toLE size str.length)).toOption.getD b

/-- The buffer that a write leaves when it throws. -/
def WriteOp.abandoned (P : Platform) (b : DynamicBuffer) : WriteOp → DynamicBuffer
  | .writeString str => b.abandonedChars P 1 255 str
  | .writeLongString str => b.abandonedChars P 2 65535 str
  | .write _ _ _ | .writeArray _ => b

/-- A write that returned, and the buffer before and after it. -/
structure Written where
  before : DynamicBuffer
  data : Bytes
  after : DynamicBuffer

def bufferStep (P : Platform) (b : DynamicBuffer) : BufferAct → DynamicBuffer × List Written
  | .seek offset => (b.seek offset, [])
  | .write op =>
    match op.run P b with
    | .ok b' => (b', [⟨b, op.bytes, b'⟩])
    | .error _ => (op.abandoned P b, [])

/-- The bytes are stored at the cursor, and the cursor is after them. -/
def Written.AtCursor (w : Written) : Prop :=
  StoredAt w.before.buffer w.before.curOffset w.data w.after.buffer ∧
    w.after.curOffset = w.before.curOffset + w.data.length

/-- A `Seek` to a place in the buffer or to its end. -/
def SeeksInside (b : DynamicBuffer) (a : BufferAct) : Prop :=
  ∀ offset, a = .seek offset → offset ≤ b.buffer.length

/-- The write is within its limit, and the vector has room for it. -/
def WriteOp.Returns (P : Platform) (b : DynamicBuffer) (op : WriteOp) : Prop :=
  op.Fits ∧ b.buffer.length + op.bytes.length ≤ DynamicBuffer.maxSize P

/-- A write that stores any bytes is made with the cursor at the end. -/
def WritesAtEnd (P : Platform) (b : DynamicBuffer) (a : BufferAct) : Prop :=
  ∀ op, a = .write op → op.bytes ≠ [] → op.Returns P b → b.curOffset = b.buffer.length

section Writes

variable {P : Platform} {b b' : DynamicBuffer}

theorem insertArray_iff {data : Bytes} : b.insertArray P data = .ok b' ↔
    b.buffer.length + data.length ≤ DynamicBuffer.maxSize P ∧ b' = b.writeArray data := by
  rw [DynamicBuffer.insertArray_eq_ok, and_comm]

/-- The count and the characters, one after the other. -/
theorem writeChars_iff {size limit : Nat} {str : Bytes} : (∃ b', b.writeChars P size limit str = .ok b') ↔
    str.length < limit ∧ b.buffer.length + (toLE size str.length ++ str).length ≤ DynamicBuffer.maxSize P := by
  refine ⟨fun h => ?_, fun h => ?_⟩
  · obtain ⟨b', h⟩ := h
    obtain ⟨hlimit, hbuffer, hmax⟩ := writeChars_eq_ok h
    rw [hbuffer, List.length_append] at hmax
    exact ⟨hlimit, hmax⟩
  · obtain ⟨hlimit, hmax⟩ := h
    rw [List.length_append] at hmax
    have hcount : b.insertArray P (toLE size str.length) = .ok (b.writeArray (toLE size str.length)) :=
      insertArray_iff.mpr ⟨by omega, rfl⟩
    refine ⟨(b.writeArray (toLE size str.length)).writeArray str, ?_⟩
    rw [DynamicBuffer.writeChars, if_neg (by omega), hcount]
    refine insertArray_iff.mpr ⟨?_, rfl⟩
    rw [DynamicBuffer.writeArray_buffer, List.length_append]
    omega

theorem run_returns_iff {op : WriteOp} : (∃ b', op.run P b = .ok b') ↔ op.Returns P b := by
  cases op with
  | write size data be => simp [WriteOp.run, WriteOp.Returns, WriteOp.Fits, WriteOp.bytes, insertArray_iff]
  | writeArray data => simp [WriteOp.run, WriteOp.Returns, WriteOp.Fits, WriteOp.bytes, insertArray_iff]
  | writeString str => exact writeChars_iff
  | writeLongString str => exact writeChars_iff

theorem writeChars_curOffset {size limit : Nat} {str : Bytes} (h : b.writeChars P size limit str = .ok b') :
    b'.curOffset = b.curOffset + (toLE size str.length ++ str).length := by
  unfold DynamicBuffer.writeChars at h
  split at h
  · cases h
  · obtain ⟨b₁, hcount, hchars⟩ := bind_eq_ok.mp h
    obtain ⟨-, rfl⟩ := insertArray_iff.mp hcount
    obtain ⟨-, rfl⟩ := insertArray_iff.mp hchars
    rw [List.length_append]
    exact Nat.add_assoc _ _ _

/-- A write that returns advances the cursor by what it stored. -/
theorem run_curOffset {op : WriteOp} (h : op.run P b = .ok b') :
    b'.curOffset = b.curOffset + op.bytes.length := by
  have harray : ∀ {data}, b.insertArray P data = .ok b' → b'.curOffset = b.curOffset + data.length := by
    intro data h
    obtain ⟨-, rfl⟩ := insertArray_iff.mp h
    rfl
  cases op with
  | write size data be => exact harray h
  | writeArray data => exact harray h
  | writeString str => exact writeChars_curOffset h
  | writeLongString str => exact writeChars_curOffset h

/-- The cursor is in the buffer or at its end. -/
def CursorInside (b : DynamicBuffer) : Prop := b.curOffset ≤ b.buffer.length

theorem CursorInside.writeArray (h : CursorInside b) (data : Bytes) : CursorInside (b.writeArray data) := by
  unfold CursorInside at h ⊢
  rw [DynamicBuffer.writeArray_buffer, List.length_append]
  show b.curOffset + data.length ≤ _
  omega

theorem CursorInside.abandonedChars (h : CursorInside b) (size limit : Nat) (str : Bytes) :
    CursorInside (b.abandonedChars P size limit str) := by
  unfold DynamicBuffer.abandonedChars DynamicBuffer.insertArray
  split
  · exact h
  · split
    · exact h
    · exact h.writeArray _

theorem bufferStep_ok {op : WriteOp} (h : op.run P b = .ok b') :
    bufferStep P b (.write op) = (b', [⟨b, op.bytes, b'⟩]) := by
  simp only [bufferStep, h]

theorem bufferStep_error {op : WriteOp} {e : Err} (h : op.run P b = .error e) :
    bufferStep P b (.write op) = (op.abandoned P b, []) := by
  simp only [bufferStep, h]

theorem CursorInside.abandoned (h : CursorInside b) (op : WriteOp) : CursorInside (op.abandoned P b) := by
  cases op with
  | write => exact h
  | writeArray => exact h
  | writeString str => exact h.abandonedChars _ _ _
  | writeLongString str => exact h.abandonedChars _ _ _

theorem CursorInside.step (h : CursorInside b) {a : BufferAct} (hseek : SeeksInside b a) :
    CursorInside (bufferStep P b a).1 := by
  cases a with
  | seek offset => exact hseek offset rfl
  | write op =>
    cases hop : op.run P b with
    | ok b' =>
      obtain ⟨-, hbuffer, -⟩ := WriteOp.run_eq_ok hop
      have hcur := run_curOffset hop
      rw [bufferStep_ok hop]
      unfold CursorInside at h ⊢
      rw [hbuffer, hcur, List.length_append]
      omega
    | error e =>
      rw [bufferStep_error hop]
      exact h.abandoned op

/-- What is appended is at the cursor if the cursor is at the end. -/
theorem run_atCursor_iff (h : CursorInside b) {op : WriteOp} (hop : op.run P b = .ok b') :
    Written.AtCursor ⟨b, op.bytes, b'⟩ ↔ op.bytes = [] ∨ b.curOffset = b.buffer.length := by
  obtain ⟨-, hbuffer, -⟩ := WriteOp.run_eq_ok hop
  rw [← storedAt_append_iff h, ← hbuffer]
  exact and_iff_left (run_curOffset hop)

theorem bufferStep_atCursor_iff (h : CursorInside b) (a : BufferAct) :
    (∀ w ∈ (bufferStep P b a).2, w.AtCursor) ↔ WritesAtEnd P b a := by
  cases a with
  | seek offset => simp [bufferStep, WritesAtEnd]
  | write op =>
    have hends : WritesAtEnd P b (.write op) ↔
        (op.bytes ≠ [] → op.Returns P b → b.curOffset = b.buffer.length) := by
      refine ⟨fun hw => hw op rfl, fun hw op' he => ?_⟩
      cases he
      exact hw
    rw [hends, ← run_returns_iff]
    cases hop : op.run P b with
    | ok b' =>
      have hiff := run_atCursor_iff h hop
      rw [bufferStep_ok hop, List.forall_mem_singleton, hiff]
      simp only [Except.ok.injEq, exists_eq', true_imp_iff]
      exact Classical.or_iff_not_imp_left
    | error e => simp [bufferStep_error hop]

end Writes

/-- **Every write goes to the cursor** exactly in the runs that write, when they store
anything, with the cursor at the end of the buffer. -/
theorem cursor_writes_iff (P : Platform) (initialSize : Nat) (acts : List BufferAct)
    (hseek : Runs.AllSteps (bufferStep P) SeeksInside (.new initialSize) acts) :
    (∀ w ∈ Runs.log (bufferStep P) (.new initialSize) acts, w.AtCursor) ↔
      Runs.AllSteps (bufferStep P) (WritesAtEnd P) (.new initialSize) acts := by
  rw [Runs.forall_log_iff]
  exact Runs.allSteps_congr_of_allSteps CursorInside (fun _ _ h => h.step)
    (fun _ a h => bufferStep_atCursor_iff h a) (Nat.le_refl 0) hseek

/-- Two numbers, the cursor at the end again before the second. -/
theorem cursor_writes_sample :
    let P : Platform := ⟨64, 64, .inr rfl, .inr rfl⟩
    ∀ w ∈ Runs.log (bufferStep P) (.new 0)
      [.write (.writeArray [1, 2]), .seek 0, .seek 2, .write (.writeString [3])], w.AtCursor :=
  (cursor_writes_iff ⟨64, 64, .inr rfl, .inr rfl⟩ 0
    [.write (.writeArray [1, 2]), .seek 0, .seek 2, .write (.writeString [3])] (by
      simp [SeeksInside, bufferStep, WriteOp.run, DynamicBuffer.insertArray, DynamicBuffer.maxSize,
        DynamicBuffer.seek])).mpr (by
      simp [WritesAtEnd, bufferStep, WriteOp.run, DynamicBuffer.insertArray, DynamicBuffer.maxSize,
        DynamicBuffer.seek, DynamicBuffer.writeArray, DynamicBuffer.new])

/-- After a `Seek` to the start the bytes still go to the end. -/
theorem write_after_seek_appends :
    let P : Platform := ⟨64, 64, .inr rfl, .inr rfl⟩
    let acts := [BufferAct.write (.writeArray [1, 2]), .seek 0, .write (.writeArray [9])]
    Runs.AllSteps (bufferStep P) SeeksInside (.new 0) acts ∧
      (Runs.final (bufferStep P) (.new 0) acts).buffer = [1, 2, 9] ∧
      ∃ w ∈ Runs.log (bufferStep P) (.new 0) acts, ¬ w.AtCursor := by
  intro P acts
  let b : DynamicBuffer := ((DynamicBuffer.new 0).writeArray [1, 2]).seek 0
  have hlog : Runs.log (bufferStep P) (.new 0) acts =
      [⟨.new 0, [1, 2], (DynamicBuffer.new 0).writeArray [1, 2]⟩, ⟨b, [9], b.writeArray [9]⟩] := rfl
  have hseek : Runs.AllSteps (bufferStep P) SeeksInside (.new 0) acts := by
    simp [acts, SeeksInside]
  refine ⟨hseek, rfl, ⟨b, [9], b.writeArray [9]⟩, by simp [hlog], fun hw => ?_⟩
  -- the first byte is still the 1
  exact absurd (hw.1.inside 0 (by decide) (by decide)) (by decide)

end EyPS
