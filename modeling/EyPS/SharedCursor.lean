/-
Reads and writes of one `bufferView`. It reads a view and writes a buffer, which have
nothing in common, but `WriteArray` is that of `dynamicBuffer` with `m_CurDataOffset`
for the cursor: a write moves the place of the next read.

So the reads of a run are those of the run without its writes as long as no read
comes after something was written.
-/
import EyPS.ReaderBounds

namespace EyPS

open BufferView Runs

/-- What `insert` throws past `max_size`. -/
def vectorInsert : Err := .lengthError "vector::_M_range_insert"

/-- `WriteArray` with the exceptions of the vector it appends to. The capacity it reserves
first is counted from the read cursor. -/
def BufferView.insertArray (P : Platform) (v : BufferView) (data : Bytes) : Except Err BufferView :=
  if DynamicBuffer.maxSize P < (v.curDataOffset + data.length) % 2 ^ P.sizeT then
    .error DynamicBuffer.vectorReserve
  else if DynamicBuffer.maxSize P < v.buffer.length + data.length then .error vectorInsert
  else .ok { v with
    buffer := v.buffer ++ data
    curDataOffset := (v.curDataOffset + data.length) % 2 ^ P.sizeT }

/-- A use of a `bufferView`. -/
inductive ViewOp
  | read (op : ReadOp)
  /-- `Write<T>(data, bigEndian)` for an integer `T` of `size` bytes -/
  | write (size : Nat) (data : Fin (256 ^ size)) (bigEndian : Bool)
  | writeArray (data : Bytes)
  deriving DecidableEq

namespace ViewOp

/-- The bytes a write appends. -/
def bytes : ViewOp → Bytes
  | .read _ => []
  | .write size data bigEndian => ordered bigEndian (toLE size data.val)
  | .writeArray data => data

def isRead : ViewOp → Bool
  | .read _ => true
  | .write _ _ _ | .writeArray _ => false

theorem eq_read {op : ViewOp} (h : op.isRead = true) : ∃ r, op = .read r := by
  cases op with
  | read r => exact ⟨r, rfl⟩
  | write => cases h
  | writeArray => cases h

end ViewOp

/-- What a use did: what the read came to, or the bytes the write appended. -/
inductive ViewEvent
  | read (outcome : Except Err Yield)
  | wrote (bytes : Bytes)
  | refused (e : Err)

namespace ViewEvent

def outcome? : ViewEvent → Option (Except Err Yield)
  | .read outcome => some outcome
  | .wrote _ | .refused _ => none

def written : ViewEvent → Bytes
  | .wrote bytes => bytes
  | .read _ | .refused _ => []

end ViewEvent

/-- A write, and its exception. -/
def writeStep (P : Platform) (v : BufferView) (data : Bytes) : BufferView × List ViewEvent :=
  match v.insertArray P data with
  | .ok w => (w, [.wrote data])
  | .error e => (v, [.refused e])

def viewStep (P : Platform) (v : BufferView) : ViewOp → BufferView × List ViewEvent
  | .read op => ((spanStep P v op).1, (spanStep P v op).2.map fun e => .read e.outcome)
  | .write size data bigEndian => writeStep P v (ordered bigEndian (toLE size data.val))
  | .writeArray data => writeStep P v data

/-- What the reads of a run came to. -/
def outcomes (P : Platform) (v : BufferView) (ops : List ViewOp) : List (Except Err Yield) :=
  (log (viewStep P) v ops).filterMap ViewEvent.outcome?

/-- The reads of the run give what they give without its writes, and the output buffer is
what was written. -/
def Undisturbed (P : Platform) (data : Bytes) (ops : List ViewOp) : Prop :=
  outcomes P (.new data) ops = outcomes P (.new data) (ops.filter ViewOp.isRead) ∧
    (final (viewStep P) (.new data) ops).buffer =
      (log (viewStep P) (.new data) ops).flatMap ViewEvent.written

/-- A read comes while nothing has been written. -/
def ReadsFirst (v : BufferView) (op : ViewOp) : Prop := op.isRead = true → v.buffer = []

/-! ## One step -/

section Step

variable {P : Platform} {v : BufferView}

theorem viewStep_write {op : ViewOp} (h : op.isRead = false) : viewStep P v op = writeStep P v op.bytes := by
  cases op with
  | read op => cases h
  | write => rfl
  | writeArray => rfl

theorem insertArray_eq_ok {w : BufferView} {data : Bytes} (h : v.insertArray P data = .ok w) :
    w = { v with
      buffer := v.buffer ++ data
      curDataOffset := (v.curDataOffset + data.length) % 2 ^ P.sizeT } := by
  unfold BufferView.insertArray at h
  split at h
  · cases h
  · split at h
    · cases h
    · exact (Except.ok.inj h).symm

/-- A write stores all of its bytes or none, and moves the cursor if it stores them. -/
theorem writeStep_cases (P : Platform) (v : BufferView) (data : Bytes) :
    (∃ e, writeStep P v data = (v, [.refused e])) ∨
      writeStep P v data = ({ v with
        buffer := v.buffer ++ data
        curDataOffset := (v.curDataOffset + data.length) % 2 ^ P.sizeT }, [.wrote data]) := by
  unfold writeStep
  cases h : v.insertArray P data with
  | error e => exact .inl ⟨e, rfl⟩
  | ok w =>
    obtain rfl := insertArray_eq_ok h
    exact .inr rfl

/-- A step appends what it says it wrote. -/
theorem viewStep_buffer (op : ViewOp) :
    (viewStep P v op).1.buffer = v.buffer ++ (viewStep P v op).2.flatMap ViewEvent.written := by
  cases hop : op.isRead with
  | false =>
    rw [viewStep_write hop]
    obtain ⟨e, h⟩ | h := writeStep_cases P v op.bytes
    · simp [h, ViewEvent.written]
    · simp [h, ViewEvent.written]
  | true =>
    obtain ⟨r, rfl⟩ := ViewOp.eq_read hop
    simp [viewStep, (spanStep_moves r).buffer, List.flatMap_map, ViewEvent.written]

end Step

/-- Over any run the output buffer is what was written. -/
theorem final_buffer (P : Platform) (data : Bytes) (ops : List ViewOp) :
    (final (viewStep P) (.new data) ops).buffer =
      (log (viewStep P) (.new data) ops).flatMap ViewEvent.written :=
  inv_log_all (fun (v : BufferView) l => v.buffer = l.flatMap ViewEvent.written)
    (fun v op l h => by rw [viewStep_buffer, List.flatMap_append, h]) (by rfl) ops

/-! ## Reads before writes -/

section Alone

variable {P : Platform} {data : Bytes}

theorem outcomes_cons (v : BufferView) (op : ViewOp) (ops : List ViewOp) : outcomes P v (op :: ops) =
    (viewStep P v op).2.filterMap ViewEvent.outcome? ++ outcomes P (viewStep P v op).1 ops := by
  rw [outcomes, log_cons, List.filterMap_append, outcomes]

theorem outcomes_write {v : BufferView} {op : ViewOp} (h : op.isRead = false) (ops : List ViewOp) :
    outcomes P v (op :: ops) = outcomes P (writeStep P v op.bytes).1 ops := by
  rw [outcomes_cons, viewStep_write h]
  obtain ⟨e, hw⟩ | hw := writeStep_cases P v op.bytes
  · rw [hw]; rfl
  · rw [hw]; rfl

/-- The reader of the run and the reader of its reads alone are the same until something
is written. -/
theorem outcomes_alone (hlen : data.length < 2 ^ P.sizeT) {ops : List ViewOp} {v u : BufferView}
    (hsame : v.buffer = [] → v = u ∧ Inside data v) (h : AllSteps (viewStep P) ReadsFirst v ops) :
    outcomes P v ops = outcomes P u (ops.filter ViewOp.isRead) := by
  induction ops generalizing v u with
  | nil => rfl
  | cons op ops ih =>
    obtain ⟨hfirst, hrest⟩ := h
    cases hop : op.isRead with
    | false =>
      rw [List.filter_cons_of_neg (by simp [hop]), outcomes_write hop]
      rw [viewStep_write hop] at hrest
      refine ih (fun hbuffer => ?_) hrest
      obtain ⟨e, hw⟩ | hw := writeStep_cases P v op.bytes
      · rw [hw] at hbuffer ⊢
        exact hsame hbuffer
      · rw [hw] at hbuffer ⊢
        obtain ⟨hv, hdata⟩ := List.append_eq_nil_iff.mp hbuffer
        obtain ⟨rfl, hin⟩ := hsame hv
        have hcur := hin.2
        have hmod : (v.curDataOffset + op.bytes.length) % 2 ^ P.sizeT = v.curDataOffset := by
          rw [hdata, List.length_nil, Nat.add_zero, Nat.mod_eq_of_lt (by omega)]
        have hsame : ({ v with
            buffer := v.buffer ++ op.bytes
            curDataOffset := (v.curDataOffset + op.bytes.length) % 2 ^ P.sizeT } : BufferView) = v := by
          rw [hmod, hdata, List.append_nil]
        simp only [hsame]
        exact ⟨trivial, hin⟩
    | true =>
      obtain ⟨rfl, hin⟩ := hsame (hfirst hop)
      rw [List.filter_cons_of_pos hop, outcomes_cons, outcomes_cons, ih (u := (viewStep P v op).1) _ hrest]
      intro hbuffer
      obtain ⟨r, rfl⟩ := ViewOp.eq_read hop
      exact ⟨rfl, hin.step r⟩

end Alone

/-- **Reads and writes do not disturb each other** in every run whose reads come before
anything is written. -/
theorem undisturbed_of_readsFirst (P : Platform) (data : Bytes) (ops : List ViewOp)
    (hlen : data.length < 2 ^ P.sizeT) (h : AllSteps (viewStep P) ReadsFirst (.new data) ops) :
    Undisturbed P data ops :=
  ⟨outcomes_alone hlen (fun _ => ⟨rfl, rfl, Nat.zero_le _⟩) h, final_buffer P data ops⟩

/-! ## And in no others -/

/-- The fewest bytes a read takes: a string may be empty. -/
def ReadOp.minSize : ReadOp → Nat
  | .read size _ => size
  | .readString => 1
  | .readLongString => 2
  | .readView n => n

/-- How far a use moves the cursor, at least, where it succeeds. -/
def ViewOp.size : ViewOp → Nat
  | .read op => op.minSize
  | .write size _ _ => size
  | .writeArray data => data.length

def totalSize : List ViewOp → Nat
  | [] => 0
  | op :: ops => op.size + totalSize ops

theorem totalSize_append (as bs : List ViewOp) : totalSize (as ++ bs) = totalSize as + totalSize bs := by
  induction as with
  | nil => exact (Nat.zero_add _).symm
  | cons op ops ih => rw [List.cons_append, totalSize, totalSize, ih, Nat.add_assoc]

theorem size_of_write {op : ViewOp} (h : op.isRead = false) : op.size = op.bytes.length := by
  cases op with
  | read op => cases h
  | write => simp [ViewOp.size, ViewOp.bytes]
  | writeArray => rfl

/-- A view of zeros: every string in it is empty. -/
def zeros (n : Nat) : Bytes := List.replicate n 0

theorem fromLE_zeros (n : Nat) : fromLE (zeros n) = 0 := by
  induction n with
  | zero => rfl
  | succ n ih =>
    rw [zeros, List.replicate_succ, fromLE]
    rw [zeros] at ih
    simp [ih]

section Zeros

variable {P : Platform} {v : BufferView} {n : Nat}

theorem numberAt_zeros (hv : v.dataView = zeros n) (size : Nat) : v.numberAt size false = 0 := by
  have hslice : slice (zeros n) v.curDataOffset size = zeros (min size (n - v.curDataOffset)) := by
    simp [slice, zeros]
  rw [numberAt, hv, hslice]
  exact fromLE_zeros _

/-- On zeros a read succeeds exactly where its fewest bytes fit, and takes no more. -/
theorem handOut_zeros (hv : v.dataView = zeros n) {op : ReadOp}
    (hwrap : v.curDataOffset + op.minSize < 2 ^ P.sizeT) (w : BufferView) : (∃ y, op.handOut P v = .ok (y, w)) ↔
      v.curDataOffset + op.minSize ≤ n ∧ w = v.advance op.minSize := by
  have hlen : v.dataView.length = n := by rw [hv, zeros, List.length_replicate]
  have hbody : ∀ {size : Nat}, (∃ y, (v.readPrefixed P size >>= fun x => pure (Yield.value (.chars x.1), x.2)) =
      .ok (y, w)) ↔ v.curDataOffset + size ≤ n ∧ w = v.advance size := by
    intro size
    simp only [bind_eq_ok, readPrefixed_eq_ok, numberAt_zeros hv, hlen, Nat.add_zero]
    refine ⟨fun h => ?_, fun h => ?_⟩
    · obtain ⟨y, x, ⟨hle, rfl⟩, h⟩ := h
      cases h
      exact ⟨hle, rfl⟩
    · obtain ⟨hle, rfl⟩ := h
      exact ⟨_, _, ⟨hle, rfl⟩, rfl⟩
  cases op with
  | read size be =>
    simp only [ReadOp.handOut, ReadOp.run, bind_eq_ok, (read_guarded P v size be).eq_ok_iff, hlen]
    refine ⟨fun h => ?_, fun h => ?_⟩
    · obtain ⟨y, x, ⟨z, ⟨hle, rfl⟩, hx⟩, h⟩ := h
      cases hx
      cases h
      exact ⟨hle, rfl⟩
    · obtain ⟨hle, rfl⟩ := h
      exact ⟨_, _, ⟨_, ⟨hle, rfl⟩, rfl⟩, rfl⟩
  | readString =>
    simp only [ReadOp.handOut, ReadOp.run, readString_eq, value_chars_bind]
    exact hbody
  | readLongString =>
    simp only [ReadOp.handOut, ReadOp.run, readLongString_eq, value_chars_bind]
    exact hbody
  | readView size =>
    have hmod : (v.curDataOffset + size) % 2 ^ P.sizeT = v.curDataOffset + size := Nat.mod_eq_of_lt hwrap
    have hcan : v.canReadBytes P size = true ↔ v.curDataOffset + size ≤ n := by
      rw [canReadBytes, hmod, hlen, decide_eq_true_iff]
    simp only [ReadOp.handOut, readSpan, hmod, ReadOp.minSize, ← hcan]
    cases v.canReadBytes P size with
    | false => simp [bind, Except.bind]
    | true => simp [bind, Except.bind, pure, Except.pure, advance, eq_comm]

theorem viewStep_read_ok {op : ReadOp} {y : Yield} {w : BufferView} (h : op.handOut P v = .ok (y, w)) :
    viewStep P v (.read op) = (w, [.read (.ok y)]) := by
  simp [viewStep, spanStep, h]

theorem viewStep_read_error {op : ReadOp} {e : Err} (h : op.handOut P v = .error e) :
    (viewStep P v (.read op)).2 = [.read (.error e)] := by
  simp [viewStep, spanStep, h]

/-- Reads alone, in a view that is long enough. -/
theorem reads_zeros {ops : List ViewOp} (hn : n < 2 ^ P.sizeT) (hreads : ∀ op ∈ ops, op.isRead = true)
    (hv : v.dataView = zeros n) (hfit : v.curDataOffset + totalSize ops ≤ n) :
    ∀ r ∈ outcomes P v ops, ∃ y, r = .ok y := by
  induction ops generalizing v with
  | nil =>
    intro r hr
    cases hr
  | cons op ops ih =>
    obtain ⟨hread, hrest⟩ := List.forall_mem_cons.mp hreads
    obtain ⟨r, rfl⟩ := ViewOp.eq_read hread
    rw [totalSize] at hfit
    have hsize : (ViewOp.read r).size = r.minSize := rfl
    have hwrap : v.curDataOffset + r.minSize < 2 ^ P.sizeT := by omega
    obtain ⟨y, hy⟩ := (handOut_zeros hv hwrap (v.advance r.minSize)).mpr ⟨by omega, rfl⟩
    rw [outcomes_cons, viewStep_read_ok hy]
    intro x hx
    obtain rfl | hx := List.mem_cons.mp hx
    · exact ⟨y, rfl⟩
    · exact ih hrest (v := v.advance r.minSize) hv (by rw [advance_curDataOffset]; omega) x hx

theorem insertArray_fits {data : Bytes} (hcur : v.curDataOffset + data.length ≤ DynamicBuffer.maxSize P)
    (hbuffer : v.buffer.length + data.length ≤ DynamicBuffer.maxSize P) :
    v.insertArray P data = .ok { v with
      buffer := v.buffer ++ data, curDataOffset := v.curDataOffset + data.length } := by
  have hmax := DynamicBuffer.maxSize_lt P
  have hmod : (v.curDataOffset + data.length) % 2 ^ P.sizeT = v.curDataOffset + data.length :=
    Nat.mod_eq_of_lt (by omega)
  rw [BufferView.insertArray, hmod, if_neg (by omega), if_neg (by omega)]

/-- A run whose reads all succeed moves the cursor by all it read and wrote. -/
theorem final_zeros {ops : List ViewOp} (hv : v.dataView = zeros n)
    (hcur : v.curDataOffset + totalSize ops ≤ DynamicBuffer.maxSize P)
    (hbuffer : v.buffer.length + totalSize ops ≤ DynamicBuffer.maxSize P)
    (hok : ∀ r ∈ outcomes P v ops, ∃ y, r = .ok y) :
    (final (viewStep P) v ops).dataView = zeros n ∧
      (final (viewStep P) v ops).curDataOffset = v.curDataOffset + totalSize ops := by
  have hmax := DynamicBuffer.maxSize_lt P
  induction ops generalizing v with
  | nil => exact ⟨hv, rfl⟩
  | cons op ops ih =>
    rw [totalSize] at hcur hbuffer ⊢
    rw [final_cons, ← Nat.add_assoc]
    cases hop : op.isRead with
    | false =>
      rw [outcomes_write hop] at hok
      rw [size_of_write hop] at hcur hbuffer ⊢
      have hstep : writeStep P v op.bytes = ({ v with
          buffer := v.buffer ++ op.bytes, curDataOffset := v.curDataOffset + op.bytes.length },
          [.wrote op.bytes]) := by
        rw [writeStep, insertArray_fits (by omega) (by omega)]
      rw [viewStep_write hop]
      rw [hstep] at hok ⊢
      exact ih hv (by simp only; omega) (by simp only [List.length_append]; omega) hok
    | true =>
      obtain ⟨op, rfl⟩ := ViewOp.eq_read hop
      have hsize : (ViewOp.read op).size = op.minSize := rfl
      rw [outcomes_cons] at hok
      cases h : op.handOut P v with
      | error e =>
        rw [viewStep_read_error h] at hok
        obtain ⟨y, hy⟩ := hok (.error e) (by simp [ViewEvent.outcome?])
        cases hy
      | ok x =>
        obtain ⟨hle, hx⟩ := (handOut_zeros hv (by omega) x.2).mp ⟨x.1, h⟩
        rw [viewStep_read_ok h] at hok ⊢
        rw [hx] at hok ⊢
        exact ih hv (by rw [advance_curDataOffset]; omega) (by simp only [advance]; omega)
          fun r hr => hok r (List.mem_append_right _ hr)

end Zeros

/-! ## The condition is exact -/

section Exact

variable {P : Platform}

theorem outcomes_append (v : BufferView) (as bs : List ViewOp) :
    outcomes P v (as ++ bs) = outcomes P v as ++ outcomes P (final (viewStep P) v as) bs := by
  rw [outcomes, log_append, List.filterMap_append, outcomes, outcomes]

theorem outcomes_length (v : BufferView) (ops : List ViewOp) :
    (outcomes P v ops).length = (ops.filter ViewOp.isRead).length := by
  induction ops generalizing v with
  | nil => rfl
  | cons op ops ih =>
    cases hop : op.isRead with
    | false => rw [outcomes_write hop, ih, List.filter_cons_of_neg (by simp [hop])]
    | true =>
      obtain ⟨op, rfl⟩ := ViewOp.eq_read hop
      rw [outcomes_cons, List.length_append, ih, List.filter_cons_of_pos hop, List.length_cons, Nat.add_comm]
      simp only [viewStep, spanStep]
      cases op.handOut P v <;> rfl

/-- What was read and what was written, apart. -/
theorem totalSize_filter (ops : List ViewOp) : totalSize ops =
    totalSize (ops.filter ViewOp.isRead) + (ops.flatMap ViewOp.bytes).length := by
  induction ops with
  | nil => rfl
  | cons op ops ih =>
    rw [totalSize, List.flatMap_cons, List.length_append]
    cases hop : op.isRead with
    | false =>
      rw [List.filter_cons_of_neg (by simp [hop]), size_of_write hop]
      omega
    | true =>
      have hbytes : op.bytes = [] := by
        obtain ⟨r, rfl⟩ := ViewOp.eq_read hop
        rfl
      rw [List.filter_cons_of_pos hop, totalSize, hbytes, List.length_nil]
      omega

theorem final_buffer_le (v : BufferView) (ops : List ViewOp) :
    (final (viewStep P) v ops).buffer.length ≤ v.buffer.length + (ops.flatMap ViewOp.bytes).length := by
  induction ops generalizing v with
  | nil => exact Nat.le_refl _
  | cons op ops ih =>
    have hop : (viewStep P v op).1.buffer.length ≤ v.buffer.length + op.bytes.length := by
      cases hop : op.isRead with
      | false =>
        rw [viewStep_write hop]
        obtain ⟨e, h⟩ | h := writeStep_cases P v op.bytes
        · rw [h]
          exact Nat.le_add_right _ _
        · rw [h]
          exact Nat.le_of_eq List.length_append
      | true =>
        obtain ⟨r, rfl⟩ := ViewOp.eq_read hop
        rw [viewStep, (spanStep_moves r).buffer]
        exact Nat.le_add_right _ _
    have hops := ih (viewStep P v op).1
    rw [final_cons, List.flatMap_cons, List.length_append]
    omega

/-- A read behind a write is disturbed in the view of zeros that ends where the reads up to
it end. -/
theorem written_eq_nil {pre post : List ViewOp} {op : ReadOp}
    (hsum : totalSize (pre ++ .read op :: post) ≤ DynamicBuffer.maxSize P)
    (h : ∀ data : Bytes, data.length < 2 ^ P.sizeT → Undisturbed P data (pre ++ .read op :: post)) :
    pre.flatMap ViewOp.bytes = [] := by
  have hmax := DynamicBuffer.maxSize_lt P
  let n := totalSize (pre.filter ViewOp.isRead) + op.minSize
  have hpre := totalSize_filter pre
  have hsum : totalSize pre + (op.minSize + totalSize post) ≤ DynamicBuffer.maxSize P := by
    rwa [totalSize_append] at hsum
  have hn : n < 2 ^ P.sizeT := by omega
  have hlen : (zeros n).length = n := List.length_replicate
  let upto : List ViewOp := pre ++ [.read op]
  -- up to this read, the outcomes are those of the reads alone
  have hsame : outcomes P (.new (zeros n)) upto = outcomes P (.new (zeros n)) (upto.filter ViewOp.isRead) := by
    have hall := (h (zeros n) (by rwa [hlen])).1
    have hops : pre ++ ViewOp.read op :: post = upto ++ post := List.append_cons _ _ _
    rw [hops, List.filter_append, outcomes_append _ upto, outcomes_append _ (upto.filter ViewOp.isRead)] at hall
    exact (List.append_inj hall (by rw [outcomes_length, outcomes_length, List.filter_filter]; simp)).1
  have hok : ∀ r ∈ outcomes P (.new (zeros n)) upto, ∃ y, r = .ok y := by
    rw [hsame]
    refine reads_zeros hn (fun a ha => (List.mem_filter.mp ha).2) rfl ?_
    have hlast : [ViewOp.read op].filter ViewOp.isRead = [.read op] := rfl
    rw [List.filter_append, hlast, totalSize_append]
    exact Nat.le_of_eq (Nat.zero_add _)
  -- but the cursor of the run is further
  rw [outcomes_append] at hok
  obtain ⟨hview, hcur⟩ := @final_zeros P (.new (zeros n)) n pre rfl
    (by simp only [BufferView.new]; omega) (by simp only [BufferView.new, List.length_nil]; omega)
    fun r hr => hok r (List.mem_append_left _ hr)
  have hzero : (BufferView.new (zeros n)).curDataOffset = 0 := rfl
  cases hread : op.handOut P (final (viewStep P) (.new (zeros n)) pre) with
  | error e =>
    obtain ⟨y, hy⟩ := hok (.error e) (List.mem_append_right _ (by
      simp [outcomes, viewStep_read_error hread, ViewEvent.outcome?]))
    cases hy
  | ok x =>
    obtain ⟨hle, -⟩ := (handOut_zeros hview (by omega) x.2).mp ⟨x.1, hread⟩
    exact List.eq_nil_of_length_eq_zero (by omega)

/-- Reads and writes that leave each other alone in every view read before they write. -/
theorem readsFirst_of_undisturbed {ops : List ViewOp} (hsum : totalSize ops ≤ DynamicBuffer.maxSize P)
    (h : ∀ data : Bytes, data.length < 2 ^ P.sizeT → Undisturbed P data ops) (data : Bytes) :
    AllSteps (viewStep P) ReadsFirst (.new data) ops := by
  rw [allSteps_iff]
  intro pre a post he hread
  obtain ⟨op, rfl⟩ := ViewOp.eq_read hread
  subst he
  have hle := final_buffer_le (P := P) (.new data) pre
  rw [written_eq_nil hsum h] at hle
  exact List.eq_nil_of_length_eq_zero (Nat.le_zero.mp hle)

end Exact

/-- **Reads and writes of one `bufferView`** do not disturb each other in every run whose
reads come while nothing has been written; and operations of which that holds in every
view, few enough for the buffer, do all their reads first. -/
theorem reads_then_writes_undisturbed (P : Platform) (ops : List ViewOp) :
    (∀ data : Bytes, data.length < 2 ^ P.sizeT → AllSteps (viewStep P) ReadsFirst (.new data) ops →
      Undisturbed P data ops) ∧
    (totalSize ops ≤ DynamicBuffer.maxSize P →
      (∀ data : Bytes, data.length < 2 ^ P.sizeT → Undisturbed P data ops) →
        ∀ data, AllSteps (viewStep P) ReadsFirst (.new data) ops) :=
  ⟨fun data => undisturbed_of_readsFirst P data ops, readsFirst_of_undisturbed⟩

/-- Two reads, then two writes. -/
theorem undisturbed_sample :
    Undisturbed ⟨64, 64, .inr rfl, .inr rfl⟩ [1, 2, 3]
      [.read (.read 1 false), .read (.readView 2), .writeArray [7], .write 2 ⟨5, by decide⟩ true] :=
  (reads_then_writes_undisturbed ⟨64, 64, .inr rfl, .inr rfl⟩
    [.read (.read 1 false), .read (.readView 2), .writeArray [7], .write 2 ⟨5, by decide⟩ true]).1 [1, 2, 3]
    (by decide) (by
      simp [ReadsFirst, ViewOp.isRead, viewStep, (spanStep_moves _).buffer])

/-- One byte written, and the only byte of the view cannot be read. -/
theorem write_disturbs_read :
    let P : Platform := ⟨64, 64, .inr rfl, .inr rfl⟩
    let ops : List ViewOp := [.writeArray [7], .read (.read 1 false)]
    outcomes P (.new [5]) ops = [.error tooShort] ∧
      outcomes P (.new [5]) (ops.filter ViewOp.isRead) = [.ok (.value (.number 5))] ∧
      ¬ Undisturbed P [5] ops := by
  intro P ops
  have hrun : outcomes P (.new [5]) ops = [.error tooShort] := by decide
  have halone : outcomes P (.new [5]) (ops.filter ViewOp.isRead) = [.ok (.value (.number 5))] := by decide
  refine ⟨hrun, halone, fun h => ?_⟩
  have hsame := h.1
  rw [hrun, halone] at hsame
  cases hsame

end EyPS
