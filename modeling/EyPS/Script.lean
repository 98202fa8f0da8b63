/-
Scripts of reads and writes: what a list of `dynamicBuffer` writes puts into
the buffer is read back by the matching list of `bufferView` reads.

The two classes are written independently. What ties them is the wire form of
one write (`WriteOp.bytes`): the write appends it, and the matching read takes
it off the front of what is left to read.
-/
import EyPS.Buffer
import EyPS.Runs

namespace EyPS

open Runs

/-! ## Reads -/

/-- A read of a `bufferView`. -/
inductive ReadOp
  /-- `Read<T>(bigEndian)` for an integer `T` of `size` bytes -/
  | read (size : Nat) (bigEndian : Bool)
  | readString
  | readLongString
  | readView (viewSize : Nat)
  deriving DecidableEq

/-- What a read returns: the number, as its two's complement bits, or the bytes. -/
inductive ReadValue
  | number (bits : Nat)
  | chars (bytes : Bytes)
  deriving DecidableEq

def ReadOp.run (P : Platform) (v : BufferView) : ReadOp → Except Err (ReadValue × BufferView)
  | .read size bigEndian => return Prod.map .number id (← v.read P size bigEndian)
  | .readString => return Prod.map .chars id (← v.readString P)
  | .readLongString => return Prod.map .chars id (← v.readLongString P)
  | .readView viewSize => return Prod.map .chars id (← v.readView P viewSize)

/-- The view that a read leaves when it fails: a string reader may have read the
length by then. -/
def ReadOp.abandoned (P : Platform) (v : BufferView) : ReadOp → BufferView
  | .readString => ((v.read P 1 false).toOption.map Prod.snd).getD v
  | .readLongString => ((v.read P 2 false).toOption.map Prod.snd).getD v
  | .read _ _ | .readView _ => v

/-- The next read of a script, with what it returns or throws. -/
def readStep (P : Platform) (v : BufferView) (op : ReadOp) : BufferView × List (Except Err ReadValue) :=
  match op.run P v with
  | .ok (x, v) => (v, [.ok x])
  | .error e => (op.abandoned P v, [.error e])

/-! ## Writes -/

/-- A write to a `dynamicBuffer`. -/
inductive WriteOp
  /-- `Write<T>(data, bigEndian)` for an integer `T` of `size` bytes, given by its
  two's complement bits -/
  | write (size : Nat) (data : Fin (256 ^ size)) (bigEndian : Bool)
  | writeString (str : Bytes)
  | writeLongString (str : Bytes)
  | writeArray (data : Bytes)
  deriving DecidableEq

namespace WriteOp

def run (P : Platform) (b : DynamicBuffer) : WriteOp → Except Err DynamicBuffer
  | .write size data bigEndian => b.insertArray P (ordered bigEndian (toLE size data.val))
  | .writeString str => b.writeString P str
  | .writeLongString str => b.writeLongString P str
  | .writeArray data => b.insertArray P data

/-- The writes of a script, up to the first that throws. -/
def runAll (P : Platform) (b : DynamicBuffer) (ops : List WriteOp) : Except Err DynamicBuffer :=
  ops.foldlM (WriteOp.run P) b

/-- The bytes a write appends. -/
def bytes : WriteOp → Bytes
  | .write size data bigEndian => ordered bigEndian (toLE size data.val)
  | .writeString str => toLE 1 str.length ++ str
  | .writeLongString str => toLE 2 str.length ++ str
  | .writeArray data => data

/-- The limits of the two string writers. -/
def Fits : WriteOp → Prop
  | .writeString str => str.length < 255
  | .writeLongString str => str.length < 65535
  | .write _ _ _ | .writeArray _ => True

/-- The read that matches: none for an empty array, whose view would be empty. -/
def reads : WriteOp → List ReadOp
  | .write size _ bigEndian => [.read size bigEndian]
  | .writeString _ => [.readString]
  | .writeLongString _ => [.readLongString]
  | .writeArray data => if data = [] then [] else [.readView data.length]

/-- What the write wrote, as the matching read should return it. -/
def values : WriteOp → List ReadValue
  | .write _ data _ => [.number data.val]
  | .writeString str | .writeLongString str => [.chars str]
  | .writeArray data => if data = [] then [] else [.chars data]

end WriteOp

/-! ## A write appends its bytes -/

section Written

variable {P : Platform} {b b' : DynamicBuffer}

theorem writeChars_eq_ok {size limit : Nat} {str : Bytes} (h : b.writeChars P size limit str = .ok b') :
    str.length < limit ∧ b'.buffer = b.buffer ++ (toLE size str.length ++ str) ∧
      b'.buffer.length ≤ DynamicBuffer.maxSize P := by
  unfold DynamicBuffer.writeChars at h
  split at h
  · cases h
  next hlimit =>
    cases hcount : b.insertArray P (toLE size str.length) with
    | error e => simp [hcount, bind, Except.bind] at h
    | ok b₁ =>
      simp only [hcount, bind, Except.bind] at h
      obtain ⟨rfl, -⟩ := DynamicBuffer.insertArray_eq_ok.mp hcount
      obtain ⟨rfl, hmax⟩ := DynamicBuffer.insertArray_eq_ok.mp h
      refine ⟨by omega, ?_, ?_⟩
      · simp
      · rwa [DynamicBuffer.writeArray_buffer, List.length_append]

theorem WriteOp.run_eq_ok {op : WriteOp} (h : op.run P b = .ok b') :
    op.Fits ∧ b'.buffer = b.buffer ++ op.bytes ∧ b'.buffer.length ≤ DynamicBuffer.maxSize P := by
  have harray : ∀ {data}, b.insertArray P data = .ok b' →
      b'.buffer = b.buffer ++ data ∧ b'.buffer.length ≤ DynamicBuffer.maxSize P := by
    intro data h
    obtain ⟨rfl, hmax⟩ := DynamicBuffer.insertArray_eq_ok.mp h
    exact ⟨rfl, by rwa [DynamicBuffer.writeArray_buffer, List.length_append]⟩
  cases op with
  | write size data be => exact ⟨trivial, harray h⟩
  | writeString str => exact writeChars_eq_ok h
  | writeLongString str => exact writeChars_eq_ok h
  | writeArray data => exact ⟨trivial, harray h⟩

/-- A script that throws nowhere: every write fits, and the buffer is the bytes
of the writes in order, within what a vector can hold. -/
theorem WriteOp.runAll_eq_ok {ops : List WriteOp} (h : runAll P b ops = .ok b')
    (hb : b.buffer.length ≤ DynamicBuffer.maxSize P) :
    (∀ op ∈ ops, op.Fits) ∧ b'.buffer = b.buffer ++ ops.flatMap WriteOp.bytes ∧
      b'.buffer.length ≤ DynamicBuffer.maxSize P := by
  induction ops generalizing b with
  | nil =>
    cases h
    exact ⟨by simp, by simp, hb⟩
  | cons op ops ih =>
    cases hop : op.run P b with
    | error e => simp [runAll, hop, bind, Except.bind] at h
    | ok b₁ =>
      obtain ⟨hfits, hbuffer, hmax⟩ := WriteOp.run_eq_ok hop
      have hrest : runAll P b₁ ops = .ok b' := by simpa [runAll, hop, bind, Except.bind] using h
      obtain ⟨hall, hbuffer', hmax'⟩ := ih hrest hmax
      refine ⟨List.forall_mem_cons.mpr ⟨hfits, hall⟩, ?_, hmax'⟩
      rw [hbuffer', hbuffer, List.flatMap_cons, List.append_assoc]

end Written

/-! ## The matching read takes them off -/

section Reads

variable {P : Platform} {done rest : Bytes}

/-- A number that `toLE` narrows to its own width. -/
theorem read_toLE {size value : Nat} {be : Bool} (hv : value < 256 ^ size)
    (h : (done ++ (ordered be (toLE size value) ++ rest)).length < 2 ^ P.sizeT) :
    (BufferView.split done (ordered be (toLE size value) ++ rest)).read P size be =
      .ok (value, .split (done ++ ordered be (toLE size value)) rest) := by
  rw [BufferView.read_split h rfl, Nat.mod_eq_of_lt hv]

/-- A length and as many bytes. -/
theorem readChars_toLE {size : Nat} {str : Bytes} (hv : str.length < 256 ^ size)
    (h : (done ++ (toLE size str.length ++ str ++ rest)).length < 2 ^ P.sizeT) :
    (do let (length, v) ← (BufferView.split done (toLE size str.length ++ str ++ rest)).read P size false
        v.readChars P length) =
      .ok (str, BufferView.split (done ++ (toLE size str.length ++ str)) rest) := by
  rw [List.append_assoc] at h ⊢
  have hcount : (BufferView.split done (ordered false (toLE size str.length) ++ (str ++ rest))).read P size false =
      .ok (str.length, .split (done ++ toLE size str.length) (str ++ rest)) := read_toLE hv h
  have hchars : (BufferView.split (done ++ toLE size str.length) (str ++ rest)).readChars P str.length =
      .ok (str, .split (done ++ toLE size str.length ++ str) rest) :=
    BufferView.readChars_split (by rwa [List.append_assoc])
  simp only [ordered, Bool.false_eq_true, if_false] at hcount
  simp [hcount, bind, Except.bind, hchars]

theorem readStep_ok {v v' : BufferView} {op : ReadOp} {x : ReadValue} (h : op.run P v = .ok (x, v')) :
    log (readStep P) v [op] = [.ok x] ∧ final (readStep P) v [op] = v' := by
  simp [readStep, h]

/-- **One operation**: the matching read returns what was written and takes its
bytes off the front of the rest. -/
theorem WriteOp.read_back {op : WriteOp} (hfits : op.Fits)
    (h : (done ++ (op.bytes ++ rest)).length < 2 ^ P.sizeT) :
    log (readStep P) (.split done (op.bytes ++ rest)) op.reads = op.values.map .ok ∧
      final (readStep P) (.split done (op.bytes ++ rest)) op.reads = .split (done ++ op.bytes) rest := by
  cases op with
  | write size data be =>
    have hread := @read_toLE P done rest size data.val be data.isLt h
    refine readStep_ok ?_
    simp only [ReadOp.run, bytes, hread]
    rfl
  | writeString str =>
    have hv : str.length < 256 ^ 1 := Nat.lt_of_lt_of_le (show str.length < 255 from hfits) (by decide)
    have hread : (BufferView.split done (toLE 1 str.length ++ str ++ rest)).readString P =
        .ok (str, .split (done ++ (toLE 1 str.length ++ str)) rest) := readChars_toLE hv h
    refine readStep_ok ?_
    simp only [ReadOp.run, bytes, hread]
    rfl
  | writeLongString str =>
    have hv : str.length < 256 ^ 2 := Nat.lt_of_lt_of_le (show str.length < 65535 from hfits) (by decide)
    have hread : (BufferView.split done (toLE 2 str.length ++ str ++ rest)).readLongString P =
        .ok (str, .split (done ++ (toLE 2 str.length ++ str)) rest) := readChars_toLE hv h
    refine readStep_ok ?_
    simp only [ReadOp.run, bytes, hread]
    rfl
  | writeArray data =>
    by_cases hdata : data = []
    · subst hdata
      simp [reads, values, bytes]
    · have hread : (BufferView.split done (data ++ rest)).readView P data.length =
          .ok (data, .split (done ++ data) rest) := BufferView.readView_split h
      simp only [reads, values, if_neg hdata]
      refine readStep_ok ?_
      simp only [ReadOp.run, bytes, hread]
      rfl

/-- A script of them. -/
theorem read_back_all {ops : List WriteOp} (hfits : ∀ op ∈ ops, op.Fits)
    (h : (done ++ ops.flatMap WriteOp.bytes).length < 2 ^ P.sizeT) :
    log (readStep P) (.split done (ops.flatMap WriteOp.bytes)) (ops.flatMap WriteOp.reads) =
        (ops.flatMap WriteOp.values).map .ok ∧
      final (readStep P) (.split done (ops.flatMap WriteOp.bytes)) (ops.flatMap WriteOp.reads) =
        .split (done ++ ops.flatMap WriteOp.bytes) [] := by
  induction ops generalizing done with
  | nil => simp
  | cons op ops ih =>
    obtain ⟨hop, hops⟩ := List.forall_mem_cons.mp hfits
    rw [List.flatMap_cons] at h
    obtain ⟨hlog, hfinal⟩ := op.read_back hop h
    obtain ⟨hlog', hfinal'⟩ := ih hops (by rwa [List.append_assoc])
    simp only [List.flatMap_cons, log_append, final_append, hlog, hfinal, hlog', hfinal', List.map_append,
      List.append_assoc, and_self]

end Reads

/-- **A script reads back**: the bytes of a script of writes, none of which throws,
give the written values to the matching reads, in order, and nothing is left. -/
theorem read_written (P : Platform) (initialSize : Nat) (ops : List WriteOp) (b : DynamicBuffer)
    (h : WriteOp.runAll P (.new initialSize) ops = .ok b) :
    log (readStep P) (.new b.buffer) (ops.flatMap WriteOp.reads) = (ops.flatMap WriteOp.values).map .ok ∧
      (final (readStep P) (.new b.buffer) (ops.flatMap WriteOp.reads)).getRemainingBytes P = 0 := by
  obtain ⟨hfits, hbuffer, hmax⟩ := WriteOp.runAll_eq_ok h (by simp)
  have hmax := Nat.lt_of_le_of_lt hmax (DynamicBuffer.maxSize_lt P)
  simp only [DynamicBuffer.new_buffer, List.nil_append] at hbuffer
  rw [hbuffer] at hmax ⊢
  obtain ⟨hlog, hfinal⟩ := @read_back_all P [] ops hfits hmax
  rw [BufferView.new_eq_split]
  refine ⟨hlog, ?_⟩
  rw [hfinal, BufferView.getRemainingBytes_split P (Nat.two_pow_pos _)]
  rfl

/-- A big-endian number, two strings and two arrays, one of them empty. -/
theorem read_written_sample :
    let P : Platform := ⟨64, 64, .inr rfl, .inr rfl⟩
    let ops : List WriteOp := [.write 4 ⟨0x01020304, by decide⟩ true, .writeString [0x61], .writeArray [],
      .writeLongString [], .writeArray [7, 8]]
    ∃ b, WriteOp.runAll P (.new 0) ops = .ok b ∧
      b.buffer = [1, 2, 3, 4, 1, 0x61, 0, 0, 7, 8] ∧
      log (readStep P) (.new b.buffer) (ops.flatMap WriteOp.reads) = (ops.flatMap WriteOp.values).map .ok ∧
      (final (readStep P) (.new b.buffer) (ops.flatMap WriteOp.reads)).getRemainingBytes P = 0 := by
  intro P ops
  have h : WriteOp.runAll P (.new 0) ops = .ok (((((((DynamicBuffer.new 0).writeArray [1, 2, 3, 4]).writeArray
      [1]).writeArray [0x61]).writeArray []).writeArray [0, 0]).writeArray [] |>.writeArray [7, 8]) := rfl
  exact ⟨_, h, rfl, read_written P 0 ops _ h⟩

end EyPS
