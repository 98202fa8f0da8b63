/-
Byte buffers: `util/bufferView` (a reader over a view, with an output buffer
of its own) and `util/dynamicBuffer` (a growing writer).

`std::size_t` arithmetic is modulo `2 ^ sizeT`, which matters where an
untrusted length is added to a cursor (`canReadBytes`). The host is
little-endian, as the x86 builds are. An access the guards let through
although it leaves the view is `outOfBounds`, told apart from the
`std::length_error` a guard throws.
-/
import Mathlib.Algebra.Group.Int.Defs
import Mathlib.Algebra.Group.Nat.Defs
import Mathlib.Data.List.Basic

namespace EyPS

abbrev Bytes := List UInt8

/-- The widths in bits of the C++ types that differ between builds. -/
structure Platform where
  sizeT : Nat
  long : Nat
  sizeT_eq : sizeT = 32 ∨ sizeT = 64 := by decide
  long_eq : long = 32 ∨ long = 64 := by decide
  deriving DecidableEq

namespace Platform

theorem sizeT_ge (P : Platform) : 32 ≤ P.sizeT := by
  rcases P.sizeT_eq with h | h <;> omega

theorem two_pow_32_le (P : Platform) : 2 ^ 32 ≤ 2 ^ P.sizeT :=
  Nat.pow_le_pow_right (by decide) P.sizeT_ge

end Platform

/-- How a call can fail: by a C++ exception, or by undefined behaviour. -/
inductive Err
  /-- `std::length_error` -/
  | lengthError (what : String)
  /-- `boost::system::system_error`, from a socket send -/
  | systemError
  /-- an access outside a buffer -/
  | outOfBounds
  /-- `i % 0` -/
  | divByZero
  /-- a call through a null `std::shared_ptr` -/
  | nullPointer
  /-- a use of an object after its `delete` -/
  | useAfterFree
  deriving DecidableEq

/-- What `catch (const std::exception&)` catches. -/
def Err.isException : Err → Bool
  | .lengthError _ | .systemError => true
  | _ => false

/-- Of two calls, the one after the other, both have returned. -/
theorem bind_eq_ok {ε α β : Type} {x : Except ε α} {f : α → Except ε β} {b : β} :
    (x >>= f) = .ok b ↔ ∃ a, x = .ok a ∧ f a = .ok b := by
  cases x with
  | error e =>
    have hbind : ((.error e : Except ε α) >>= f) = .error e := rfl
    simp [hbind]
  | ok a =>
    have hbind : ((.ok a : Except ε α) >>= f) = f a := rfl
    simp [hbind]

/-! ## Integers in memory -/

/-- The integer whose little-endian bytes these are. -/
def fromLE : Bytes → Nat
  | [] => 0
  | b :: bs => b.toNat + 256 * fromLE bs

/-- The `n` little-endian bytes of an integer, narrowed to `n` bytes. -/
def toLE : Nat → Nat → Bytes
  | 0, _ => []
  | n + 1, v => UInt8.ofNat v :: toLE n (v / 256)

/-- `ReverseEndianness`, on the bytes of a value, when `bigEndian` asks for it. -/
def ordered (bigEndian : Bool) (bs : Bytes) : Bytes := if bigEndian then bs.reverse else bs

theorem fromLE_lt (bs : Bytes) : fromLE bs < 256 ^ bs.length := by
  induction bs with
  | nil => simp [fromLE]
  | cons b bs ih =>
    have hb := b.toNat_lt
    simp only [fromLE, List.length_cons, Nat.pow_succ]
    omega

/-- Byte strings of one length are told apart by their integers. -/
theorem fromLE_inj {as bs : Bytes} (hl : as.length = bs.length) (h : fromLE as = fromLE bs) : as = bs := by
  induction as generalizing bs with
  | nil => exact (List.length_eq_zero_iff.mp hl.symm).symm
  | cons a as ih =>
    cases bs with
    | nil => simp at hl
    | cons b bs =>
      have ha := a.toNat_lt
      have hb := b.toNat_lt
      simp only [fromLE] at h
      have hab : a = b := UInt8.toNat_inj.mp (by omega)
      rw [hab, ih (by simpa using hl) (by omega)]

@[simp] theorem toLE_length (n v : Nat) : (toLE n v).length = n := by
  induction n generalizing v with
  | zero => rfl
  | succ n ih => simp [toLE, ih]

@[simp] theorem ordered_length (be : Bool) (bs : Bytes) : (ordered be bs).length = bs.length := by
  cases be <;> simp [ordered]

theorem fromLE_toLE (n v : Nat) : fromLE (toLE n v) = v % 256 ^ n := by
  induction n generalizing v with
  | zero => simp [toLE, fromLE, Nat.mod_one]
  | succ n ih =>
    simp only [toLE, fromLE, ih]
    rw [Nat.pow_succ', Nat.mod_mul]
    simp

theorem ordered_ordered (be : Bool) (bs : Bytes) : ordered be (ordered be bs) = bs := by
  cases be <;> simp [ordered]

/-! ## bufferView -/

/-- `bufferView`: a view to read, the cursor, and the output buffer. -/
structure BufferView where
  dataView : Bytes
  curDataOffset : Nat
  buffer : Bytes
  deriving DecidableEq

namespace BufferView

/-- The constructor `bufferView(data)`. -/
def new (data : Bytes) : BufferView := ⟨data, 0, []⟩

/-- `CanReadBytes`: the sum is taken in `size_t`. -/
def canReadBytes (P : Platform) (v : BufferView) (bytesCount : Nat) : Bool :=
  (v.curDataOffset + bytesCount) % 2 ^ P.sizeT ≤ v.dataView.length

/-- The text of the exception `ReadView` and `ReadImpl` throw. -/
def tooShort : Err := .lengthError "The desired data's length is larger than the available data"

/-- `ReadView`, and `ReadImpl` into a buffer of that size: the next bytes of
the view. Past a guard that a wrapped sum got through, `ReadImpl` copies from
outside the view; `ReadView` touches nothing yet, and goes on with a span that
ends outside and the wrapped offset. Both are `.outOfBounds` here; what such a
read hands out is the subject of `spanStep`. -/
def readView (P : Platform) (v : BufferView) (viewSize : Nat) : Except Err (Bytes × BufferView) :=
  if !v.canReadBytes P viewSize then .error tooShort
  -- the guard let a wrapped sum through
  else if v.dataView.length < v.curDataOffset + viewSize then .error .outOfBounds
  else .ok ((v.dataView.drop v.curDataOffset).take viewSize,
    { v with curDataOffset := v.curDataOffset + viewSize })

/-- `Read<T>(bigEndian)` for an integer `T` of `size` bytes. -/
def read (P : Platform) (v : BufferView) (size : Nat) (bigEndian : Bool) :
    Except Err (Nat × BufferView) := do
  let (bs, v) ← v.readView P size
  return (fromLE (ordered bigEndian bs), v)

/-- The text of the exception `ReadString` and `ReadLongString` throw. -/
def stringTooShort : Err := .lengthError "The string's length is larger than the available data"

/-- What the two string readers do once they have the length. -/
def readChars (P : Platform) (v : BufferView) (length : Nat) : Except Err (Bytes × BufferView) :=
  if !v.canReadBytes P length then .error stringTooShort
  -- the guard let a wrapped sum through
  else if v.dataView.length < v.curDataOffset + length then .error .outOfBounds
  else .ok ((v.dataView.drop v.curDataOffset).take length,
    { v with curDataOffset := v.curDataOffset + length })

/-- `ReadString`: a length of one byte. -/
def readString (P : Platform) (v : BufferView) : Except Err (Bytes × BufferView) := do
  let (length, v) ← v.read P 1 false
  v.readChars P length

/-- `ReadLongString`: a length of two bytes, little-endian. -/
def readLongString (P : Platform) (v : BufferView) : Except Err (Bytes × BufferView) := do
  let (length, v) ← v.read P 2 false
  v.readChars P length

/-- `GetRemainingBytes`, a difference of two `size_t`. -/
def getRemainingBytes (P : Platform) (v : BufferView) : Nat :=
  (v.dataView.length + 2 ^ P.sizeT - v.curDataOffset) % 2 ^ P.sizeT

/-- `WriteArray`: appends to the output buffer and advances the cursor (its
`GrowBuffer` only reserves). -/
def writeArray (v : BufferView) (data : Bytes) : BufferView :=
  { v with buffer := v.buffer ++ data, curDataOffset := v.curDataOffset + data.length }

/-- `Write<T>(data, bigEndian)` for an integer `T` of `size` bytes. -/
def write (v : BufferView) (size data : Nat) (bigEndian : Bool) : BufferView :=
  v.writeArray (ordered bigEndian (toLE size data))

/-- A view shorter than `2 ^ sizeT`, read where the sum does not wrap: the
guard is exact. -/
theorem readView_eq {P : Platform} {v : BufferView} {n : Nat} (h : v.curDataOffset + n < 2 ^ P.sizeT) :
    v.readView P n = if v.curDataOffset + n ≤ v.dataView.length then
      .ok ((v.dataView.drop v.curDataOffset).take n, { v with curDataOffset := v.curDataOffset + n })
    else .error tooShort := by
  unfold readView canReadBytes
  rw [Nat.mod_eq_of_lt h]
  by_cases hn : v.curDataOffset + n ≤ v.dataView.length
  · simp [hn, Nat.not_lt.mpr hn]
  · simp [hn]

/-- The view of `done ++ rest` with `done` read. -/
def split (done rest : Bytes) : BufferView := ⟨done ++ rest, done.length, []⟩

theorem new_eq_split (data : Bytes) : new data = split [] data := rfl

section Split

variable {P : Platform} {done x rest : Bytes} (h : (done ++ (x ++ rest)).length < 2 ^ P.sizeT)
include h

/-- A read of the bytes that come next. -/
theorem readView_split :
    (split done (x ++ rest)).readView P x.length = .ok (x, split (done ++ x) rest) := by
  simp only [List.length_append] at h
  have hwrap : (split done (x ++ rest)).curDataOffset + x.length < 2 ^ P.sizeT := by
    simp only [split]
    omega
  have hfits : (split done (x ++ rest)).curDataOffset + x.length ≤ (split done (x ++ rest)).dataView.length := by
    simp only [split, List.length_append]
    omega
  rw [readView_eq hwrap, if_pos hfits]
  simp [split]

theorem readChars_split :
    (split done (x ++ rest)).readChars P x.length = .ok (x, split (done ++ x) rest) := by
  have hread := readView_split h
  unfold readView at hread
  unfold readChars
  split at hread
  · cases hread
  next hcan => rwa [if_neg hcan]

theorem read_split {size value : Nat} {be : Bool} (hx : x = ordered be (toLE size value)) :
    (split done (x ++ rest)).read P size be = .ok (value % 256 ^ size, split (done ++ x) rest) := by
  have hsize : x.length = size := by simp [hx]
  have hread := readView_split h
  rw [hsize] at hread
  rw [read, hread, hx]
  simp [bind, Except.bind, pure, Except.pure, ordered_ordered, fromLE_toLE]

end Split

theorem getRemainingBytes_split (P : Platform) {done rest : Bytes} (h : rest.length < 2 ^ P.sizeT) :
    (split done rest).getRemainingBytes P = rest.length := by
  have hlen : (done ++ rest).length + 2 ^ P.sizeT - done.length = rest.length + 2 ^ P.sizeT := by
    rw [List.length_append]
    omega
  rw [getRemainingBytes, split, hlen, Nat.add_mod_right, Nat.mod_eq_of_lt h]

@[simp] theorem writeArray_buffer (v : BufferView) (data : Bytes) :
    (v.writeArray data).buffer = v.buffer ++ data := rfl

@[simp] theorem write_buffer (v : BufferView) (size data : Nat) (be : Bool) :
    (v.write size data be).buffer = v.buffer ++ ordered be (toLE size data) := rfl

@[simp] theorem new_buffer (data : Bytes) : (new data).buffer = [] := rfl

end BufferView

/-! ## dynamicBuffer -/

/-- `dynamicBuffer`: a vector (size at most capacity) and the cursor. -/
structure DynamicBuffer where
  buffer : Bytes
  capacity : Nat
  curOffset : Nat
  size_le : buffer.length ≤ capacity

namespace DynamicBuffer

/-- The constructor `dynamicBuffer(initialSize)`. -/
def new (initialSize : Nat) : DynamicBuffer := ⟨[], initialSize, 0, Nat.zero_le _⟩

/-- The capacity after `GrowBuffer` to `predicted` bytes and an `insert` that
leaves `size` bytes in the vector. -/
def grown (capacity predicted size : Nat) : Nat :=
  max (if capacity ≤ predicted then capacity + (predicted - capacity) else capacity) size

/-- `WriteArray`: the bytes go to the end of the vector, wherever the cursor is. -/
def writeArray (b : DynamicBuffer) (data : Bytes) : DynamicBuffer where
  buffer := b.buffer ++ data
  capacity := grown b.capacity (b.curOffset + data.length) (b.buffer.length + data.length)
  curOffset := b.curOffset + data.length
  size_le := by
    rw [List.length_append]
    exact Nat.le_max_right _ _

/-- `Write<T>(data, bigEndian)` for an integer `T` of `size` bytes. -/
def write (b : DynamicBuffer) (size data : Nat) (bigEndian : Bool) : DynamicBuffer :=
  b.writeArray (ordered bigEndian (toLE size data))

/-- `std::vector::max_size` of a vector of bytes. -/
def maxSize (P : Platform) : Nat := 2 ^ (P.sizeT - 1) - 1

/-- What `reserve` throws past it. -/
def vectorReserve : Err := .lengthError "vector::reserve"

/-- `WriteArray` and the exception of the vector it appends to. -/
def insertArray (P : Platform) (b : DynamicBuffer) (data : Bytes) : Except Err DynamicBuffer :=
  if maxSize P < b.buffer.length + data.length then .error vectorReserve else .ok (b.writeArray data)

/-- The text of the exception `WriteString` and `WriteLongString` throw. -/
def tooLarge : Err := .lengthError "String to write is too large"

/-- The string writers: a little-endian length of `size` bytes, and the bytes. -/
def writeChars (P : Platform) (b : DynamicBuffer) (size limit : Nat) (str : Bytes) :
    Except Err DynamicBuffer :=
  if limit ≤ str.length then .error tooLarge
  else do
    let b ← b.insertArray P (toLE size str.length)
    b.insertArray P str

/-- `WriteString`. Its limit is `std::numeric_limits<std::uint8_t>::max()`. -/
def writeString (P : Platform) (b : DynamicBuffer) (str : Bytes) : Except Err DynamicBuffer :=
  b.writeChars P 1 255 str

/-- `WriteLongString`. Its limit is `std::numeric_limits<std::uint16_t>::max()`. -/
def writeLongString (P : Platform) (b : DynamicBuffer) (str : Bytes) : Except Err DynamicBuffer :=
  b.writeChars P 2 65535 str

theorem insertArray_eq_ok {P : Platform} {b b' : DynamicBuffer} {data : Bytes} :
    b.insertArray P data = .ok b' ↔
      b' = b.writeArray data ∧ b.buffer.length + data.length ≤ maxSize P := by
  unfold insertArray
  split
  next h => simp [Nat.not_le.mpr h]
  next h => simp [Nat.not_lt.mp h, eq_comm]

theorem maxSize_lt (P : Platform) : maxSize P < 2 ^ P.sizeT := by
  have h : 2 ^ (P.sizeT - 1) ≤ 2 ^ P.sizeT := Nat.pow_le_pow_right (by omega) (by omega)
  have hpos : 0 < 2 ^ (P.sizeT - 1) := Nat.two_pow_pos _
  unfold maxSize
  omega

@[simp] theorem new_buffer (n : Nat) : (new n).buffer = [] := rfl

@[simp] theorem writeArray_buffer (b : DynamicBuffer) (data : Bytes) :
    (b.writeArray data).buffer = b.buffer ++ data := rfl

@[simp] theorem write_buffer (b : DynamicBuffer) (size data : Nat) (be : Bool) :
    (b.write size data be).buffer = b.buffer ++ ordered be (toLE size data) := rfl

end DynamicBuffer

end EyPS
