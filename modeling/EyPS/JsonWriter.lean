/-
`rapidjson/writer.h`: a `Writer<StringBuffer>` at the default flags, and the
calls the server makes of one.

A call is `none` where an assertion of the source fails: one of the `Writer`, or
that of the buffer, which takes bytes into memory it has been asked to reserve.
Nothing there asks an object that is closed to have a value for its last name.
-/
import EyPS.JsonText

namespace EyPS

open Ascii JsonText

structure Level where
  inArray : Bool
  valueCount : Nat
  deriving DecidableEq

structure Writer where
  /-- what is in the buffer -/
  os : Bytes
  /-- the memory the buffer has -/
  capacity : Nat
  /-- the innermost one first -/
  levels : List Level
  hasRoot : Bool
  deriving DecidableEq

/-- The calls. A `const Ch *` is given by its bytes. -/
inductive Call
  | null
  | bool (b : Bool)
  | int (i : Int32)
  | uint (i : UInt32)
  | string (str : Bytes)
  | key (str : Bytes)
  | startObject
  | endObject
  | startArray
  | endArray
  deriving DecidableEq

namespace Writer

def new : Writer := ⟨[], 0, [], false⟩

/-- `Expand` of the buffer's stack, its first memory being `kDefaultCapacity` bytes. -/
def expand (w : Writer) (count : Nat) : Nat :=
  max (if w.capacity = 0 then 256 else w.capacity + (w.capacity + 1) / 2) (w.os.length + count)

/-- `Reserve` of the buffer. -/
def reserve (w : Writer) (count : Nat) : Writer :=
  if w.capacity < w.os.length + count then { w with capacity := w.expand count } else w

/-- `PutUnsafe` of one byte after the other. -/
def putUnsafe (w : Writer) (bytes : Bytes) : Option Writer :=
  if w.os.length + bytes.length ≤ w.capacity then some { w with os := w.os ++ bytes } else none

/-- Bytes that are put where so many are reserved. -/
def put (w : Writer) (count : Nat) (bytes : Bytes) : Option Writer := (w.reserve count).putUnsafe bytes

/-- What stands between a value and those before it on its level. -/
def separator (level : Level) : Bytes :=
  if 0 < level.valueCount then
    if level.inArray then [comma] else if level.valueCount % 2 = 0 then [comma] else [colon]
  else []

/-- `Prefix`. -/
def putSeparator (w : Writer) (isString : Bool) : Option Writer :=
  match w.levels with
  | level :: levels =>
    if !level.inArray && level.valueCount % 2 == 0 && !isString then none
    else do
      let w ← w.put (separator level).length (separator level)
      return { w with levels := { level with valueCount := level.valueCount + 1 } :: levels }
  | [] => if w.hasRoot then none else some { w with hasRoot := true }

/-- `i32toa`. -/
def writeInt (i : Int32) : Bytes := toString i

/-- `u32toa`. -/
def writeUint (i : UInt32) : Bytes := (Nat.toDigits 10 i.toNat).map fun c => UInt8.ofNat c.toNat

def hexDigits : List UInt8 := [48, 49, 50, 51, 52, 53, 54, 55, 56, 57, 65, 66, 67, 68, 69, 70]

/-- The table `escape`; `none` is its zero. -/
def escapeOf (c : UInt8) : Option UInt8 :=
  if c < 0x20 then
    if c = 8 then some 98
    else if c = 9 then some 116
    else if c = 10 then some 110
    else if c = 12 then some 102
    else if c = 13 then some 114
    else some lowerU
  else if c = quote then some quote
  else if c = backslash then some backslash
  else none

def writeByte (c : UInt8) : Bytes :=
  match escapeOf c with
  | some e =>
    if e = lowerU then
      [backslash, e, zero, zero, hexDigits.getD (c >>> 4).toNat 0, hexDigits.getD (c &&& 0xF).toNat 0]
    else [backslash, e]
  | none => [c]

def writeString (str : Bytes) : Bytes := quote :: (str.flatMap writeByte ++ [quote])

/-- What is reserved for a string: `2 + length * 6`, computed as a `SizeType`. -/
def stringReserve (str : Bytes) : Nat := (2 + UInt32.ofNat str.length * 6).toNat

/-- A value that is no object and no array. -/
def scalar (w : Writer) (isString : Bool) (count : Nat) (bytes : Bytes) : Option Writer := do
  let w ← w.putSeparator isString
  w.put count bytes

def start (w : Writer) (inArray : Bool) (bytes : Bytes) : Option Writer := do
  let w ← w.putSeparator false
  let w ← w.put 1 bytes
  return { w with levels := ⟨inArray, 0⟩ :: w.levels }

def stop (w : Writer) (inArray : Bool) (bytes : Bytes) : Option Writer :=
  match w.levels with
  | level :: levels =>
    if level.inArray = inArray then do
      let w ← w.put 1 bytes
      return { w with levels := levels }
    else none
  | [] => none

def call (w : Writer) : Call → Option Writer
  | .null => w.scalar false 4 nullWord
  | .bool b => if b then w.scalar false 4 trueWord else w.scalar false 5 falseWord
  | .int i => w.scalar false 11 (writeInt i)
  | .uint i => w.scalar false 10 (writeUint i)
  | .string str | .key str => w.scalar true (stringReserve str) (writeString str)
  | .startObject => w.start false [openBrace]
  | .endObject => w.stop false [closeBrace]
  | .startArray => w.start true [openBracket]
  | .endArray => w.stop true [closeBracket]

def calls (w : Writer) : List Call → Option Writer
  | [] => some w
  | c :: cs =>
    match w.call c with
    | some w => w.calls cs
    | none => none

/-- `IsComplete`. -/
def isComplete (w : Writer) : Bool := w.hasRoot && w.levels.isEmpty

/-- `GetString` of the buffer. -/
def getString (w : Writer) : CStr := .ofBytes w.os

/-! ## What is put -/

theorem length_writeInt (i : Int32) : (writeInt i).length ≤ 11 := by
  have hl := i.le_toInt
  have hu := i.toInt_lt
  unfold writeInt toString
  cases h : i.toInt with
  | ofNat n =>
    rw [h, Int.ofNat_eq_natCast] at hu
    have hdigits : (Nat.toDigits 10 n).length ≤ 10 := (Nat.length_toDigits_le_iff (by decide) (by decide)).mpr (by omega)
    show ((Nat.toDigits 10 n).map _).length ≤ 11
    rw [List.length_map]
    omega
  | negSucc n =>
    rw [h, Int.negSucc_eq] at hl
    have hdigits : (Nat.toDigits 10 (n + 1)).length ≤ 10 :=
      (Nat.length_toDigits_le_iff (by decide) (by decide)).mpr (by omega)
    show (_ :: (Nat.toDigits 10 (n + 1)).map _).length ≤ 11
    rw [List.length_cons, List.length_map]
    omega

theorem length_writeUint (i : UInt32) : (writeUint i).length ≤ 10 := by
  have hlt := i.toNat_lt
  rw [writeUint, List.length_map]
  exact (Nat.length_toDigits_le_iff (by decide) (by decide)).mpr (by omega)

theorem length_writeByte (c : UInt8) : (writeByte c).length ≤ 6 := by
  unfold writeByte
  split
  · split <;> simp
  · simp

theorem length_writeString (str : Bytes) : (writeString str).length ≤ 2 + 6 * str.length := by
  have hbytes : (str.flatMap writeByte).length ≤ 6 * str.length := by
    induction str with
    | nil => exact Nat.le_refl 0
    | cons c str ih =>
      have hc := length_writeByte c
      rw [List.flatMap_cons, List.length_append, List.length_cons]
      omega
  rw [writeString, List.length_cons, List.length_append, List.length_singleton]
  omega

theorem stringReserve_eq {str : Bytes} (h : 2 + 6 * str.length < 2 ^ 32) : stringReserve str = 2 + 6 * str.length := by
  have hlen : (UInt32.ofNat str.length).toNat = str.length := UInt32.toNat_ofNat_of_lt' (by simp [UInt32.size]; omega)
  rw [stringReserve, UInt32.toNat_add, UInt32.toNat_mul, hlen]
  simp
  omega

/-- What a put leaves. -/
structure Puts (w : Writer) (bytes : Bytes) (w' : Writer) : Prop where
  os : w'.os = w.os ++ bytes
  levels : w'.levels = w.levels
  hasRoot : w'.hasRoot = w.hasRoot

@[simp] theorem reserve_os (w : Writer) (count : Nat) : (w.reserve count).os = w.os := by
  unfold reserve
  split <;> rfl

@[simp] theorem reserve_levels (w : Writer) (count : Nat) : (w.reserve count).levels = w.levels := by
  unfold reserve
  split <;> rfl

@[simp] theorem reserve_hasRoot (w : Writer) (count : Nat) : (w.reserve count).hasRoot = w.hasRoot := by
  unfold reserve
  split <;> rfl

/-- The memory reserved is there. -/
theorem le_capacity_reserve (w : Writer) (count : Nat) : w.os.length + count ≤ (w.reserve count).capacity := by
  unfold reserve
  split
  next => exact Nat.le_max_right _ _
  next h => exact Nat.le_of_not_lt h

theorem Puts.of_put {w w' : Writer} {count : Nat} {bytes : Bytes} (h : w.put count bytes = some w') :
    w.Puts bytes w' := by
  unfold put putUnsafe at h
  split at h
  next =>
    cases h
    exact ⟨by simp, by simp, by simp⟩
  next => cases h

/-- Bytes that are reserved are put. -/
theorem put_of_le (w : Writer) {count : Nat} {bytes : Bytes} (h : bytes.length ≤ count) :
    ∃ w', w.put count bytes = some w' ∧ w.Puts bytes w' := by
  have hcapacity := w.le_capacity_reserve count
  have hput : w.put count bytes = some { w.reserve count with os := (w.reserve count).os ++ bytes } := by
    rw [put, putUnsafe, if_pos (by rw [reserve_os]; omega)]
  exact ⟨_, hput, .of_put hput⟩

end Writer

/-! ## The size of the text -/

/-- What is reserved for the call's string is `2 + length * 6`, no `SizeType` overflowing. -/
def Call.Fits : Call → Prop
  | .string str | .key str => 2 + 6 * str.length < 2 ^ 32
  | _ => True

instance : (c : Call) → Decidable c.Fits
  | .string str | .key str => inferInstanceAs (Decidable (2 + 6 * str.length < 2 ^ 32))
  | .null | .bool _ | .int _ | .uint _ | .startObject | .endObject | .startArray | .endArray => .isTrue trivial

/-- The bytes that the call puts at most. -/
def Call.size : Call → Nat
  | .null | .bool _ => 6
  | .int _ | .uint _ => 12
  | .string str | .key str => 3 + 6 * str.length
  | .startObject | .endObject | .startArray | .endArray => 2

/-- And that calls put. -/
def Call.sizes : List Call → Nat
  | [] => 0
  | c :: cs => c.size + sizes cs

theorem Call.size_le_sizes {c : Call} {cs : List Call} (h : c ∈ cs) : c.size ≤ sizes cs := by
  induction cs with
  | nil => cases h
  | cons d cs ih =>
    rw [sizes]
    rcases List.mem_cons.mp h with rfl | h
    · exact Nat.le_add_right _ _
    · exact Nat.le_trans (ih h) (Nat.le_add_left _ _)

theorem Call.fits_of_size {c : Call} (h : c.size < 2 ^ 32) : c.Fits := by
  cases c with
  | string str | key str =>
    have hstr : 3 + 6 * str.length < 2 ^ 32 := h
    show 2 + 6 * str.length < 2 ^ 32
    omega
  | null | bool | int | uint | startObject | endObject | startArray | endArray => trivial

namespace Writer

theorem length_separator (level : Level) : (separator level).length ≤ 1 := by
  unfold separator
  grind

theorem length_putSeparator {w w' : Writer} {isString : Bool} (h : w.putSeparator isString = some w') :
    w'.os.length ≤ w.os.length + 1 := by
  unfold putSeparator at h
  split at h
  next level levels _ =>
    split at h
    next => cases h
    next =>
      obtain ⟨w₁, hput, hw⟩ := Option.bind_eq_some_iff.mp h
      cases hw
      have hlen := length_separator level
      rw [(Puts.of_put hput).os, List.length_append]
      omega
  next =>
    split at h
    next => cases h
    next =>
      cases h
      exact Nat.le_succ _

theorem length_scalar {w w' : Writer} {isString : Bool} {count : Nat} {bytes : Bytes}
    (h : w.scalar isString count bytes = some w') : w'.os.length ≤ w.os.length + 1 + bytes.length := by
  obtain ⟨w₁, hsep, hput⟩ := Option.bind_eq_some_iff.mp h
  have hlen := length_putSeparator hsep
  rw [(Puts.of_put hput).os, List.length_append]
  omega

theorem length_start {w w' : Writer} {inArray : Bool} {bytes : Bytes} (h : w.start inArray bytes = some w') :
    w'.os.length ≤ w.os.length + 1 + bytes.length := by
  obtain ⟨w₁, hsep, h⟩ := Option.bind_eq_some_iff.mp h
  obtain ⟨w₂, hput, hw⟩ := Option.bind_eq_some_iff.mp h
  cases hw
  have hlen := length_putSeparator hsep
  rw [(Puts.of_put hput).os, List.length_append]
  omega

theorem length_stop {w w' : Writer} {inArray : Bool} {bytes : Bytes} (h : w.stop inArray bytes = some w') :
    w'.os.length ≤ w.os.length + 1 + bytes.length := by
  unfold stop at h
  split at h
  next =>
    split at h
    next =>
      obtain ⟨w₁, hput, hw⟩ := Option.bind_eq_some_iff.mp h
      cases hw
      rw [(Puts.of_put hput).os, List.length_append]
      omega
    next => cases h
  next => cases h

theorem length_call {w w' : Writer} {c : Call} (h : w.call c = some w') : w'.os.length ≤ w.os.length + c.size := by
  cases c with
  | null => exact Nat.le_succ_of_le (length_scalar h)
  | bool b =>
    cases b with
    | true => exact Nat.le_succ_of_le (length_scalar h)
    | false => exact length_scalar h
  | int i =>
    have hlen := length_scalar h
    have hint := length_writeInt i
    show _ ≤ w.os.length + 12
    omega
  | uint i =>
    have hlen := length_scalar h
    have hint := length_writeUint i
    show _ ≤ w.os.length + 12
    omega
  | string str | key str =>
    have hlen := length_scalar h
    have hstr := length_writeString str
    show _ ≤ w.os.length + (3 + 6 * str.length)
    omega
  | startObject | startArray => exact length_start h
  | endObject | endArray => exact length_stop h

theorem length_calls {cs : List Call} {w w' : Writer} (h : w.calls cs = some w') :
    w'.os.length ≤ w.os.length + Call.sizes cs := by
  induction cs generalizing w with
  | nil =>
    cases h
    exact Nat.le_refl _
  | cons c cs ih =>
    unfold calls at h
    split at h
    next w₁ hcall =>
      have hlen := length_call hcall
      have hrest := ih h
      rw [Call.sizes]
      omega
    next => cases h

end Writer

end EyPS
