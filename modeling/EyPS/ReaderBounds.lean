/-
The bounds of the reader. `ReadView` touches none of the bytes it hands out: past
its guard it returns a pointer and a count and moves the cursor, in `size_t`. So a
sum that wraps is no fault there, and the span goes past the end of the view.

The cursor stays inside the view in every run; the spans and the bytes do exactly
where no wrapped sum is let through.
-/
import EyPS.StringReaders

namespace EyPS

open BufferView Runs

/-- `ReadView`: where the span starts, and the view after the cursor is moved. -/
def BufferView.readSpan (P : Platform) (v : BufferView) (viewSize : Nat) : Except Err (Nat × BufferView) :=
  if !v.canReadBytes P viewSize then .error tooShort
  else .ok (v.curDataOffset, { v with curDataOffset := (v.curDataOffset + viewSize) % 2 ^ P.sizeT })

/-- What a read hands out: a value copied out of the view, or a span of it. -/
inductive Yield
  | value (x : ReadValue)
  | span (start count : Nat)
  deriving DecidableEq

/-- What the caller finds there, if all of it is in the view. -/
def Yield.bytesIn (data : Bytes) : Yield → Option ReadValue
  | .value x => some x
  | .span start count => if start + count ≤ data.length then some (.chars (slice data start count)) else none

/-- One read of a run: the offset it was made at and what came of it. -/
structure ReadEvent where
  offset : Nat
  op : ReadOp
  outcome : Except Err Yield

/-- The read, with `ReadView` as it is: what it hands out, and the view after. -/
def ReadOp.handOut (P : Platform) (v : BufferView) : ReadOp → Except Err (Yield × BufferView)
  | .readView viewSize => do
    let (start, v) ← v.readSpan P viewSize
    return (.span start viewSize, v)
  | op => do
    let (x, v) ← op.run P v
    return (.value x, v)

/-- The next read of a run. -/
def spanStep (P : Platform) (v : BufferView) (op : ReadOp) : BufferView × List ReadEvent :=
  match op.handOut P v with
  | .ok (y, w) => (w, [⟨v.curDataOffset, op, .ok y⟩])
  | .error e => (op.abandoned P v, [⟨v.curDataOffset, op, .error e⟩])

/-! ## In bounds -/

namespace ReadOp

/-- How many bytes the read takes at this offset. -/
def extent (data : Bytes) (offset : Nat) : ReadOp → Nat
  | .read size _ => size
  | .readString => 1 + fromLE (slice data offset 1)
  | .readLongString => 2 + fromLE (slice data offset 2)
  | .readView n => n

/-- What it makes of them. -/
def decode (bs : Bytes) : ReadOp → ReadValue
  | .read _ bigEndian => .number (fromLE (ordered bigEndian bs))
  | .readString => .chars (bs.drop 1)
  | .readLongString => .chars (bs.drop 2)
  | .readView _ => .chars bs

end ReadOp

/-- A read that fails does so by an exception; one that succeeds ends inside the view
and gives the bytes there. -/
def ReadEvent.InBounds (data : Bytes) (e : ReadEvent) : Prop :=
  match e.outcome with
  | .error err => err.isException = true
  | .ok y => e.offset + e.op.extent data e.offset ≤ data.length ∧
      y.bytesIn data = some (e.op.decode (slice data e.offset (e.op.extent data e.offset)))

/-- The guard's sum wraps, and to a value the guard accepts. -/
def BufferView.WrapsInto (P : Platform) (v : BufferView) (n : Nat) : Prop :=
  2 ^ P.sizeT ≤ v.curDataOffset + n ∧ v.canReadBytes P n = true

/-- The sums of a string reader: with the size of its length, and behind it with the
length. -/
def BufferView.PrefixedNoWrap (P : Platform) (v : BufferView) (size : Nat) : Prop :=
  ¬ v.WrapsInto P size ∧
    (v.curDataOffset + size ≤ v.dataView.length → ¬ (v.advance size).WrapsInto P (v.numberAt size false))

/-- No guard of this read lets a wrapped sum through. -/
def NoWrap (P : Platform) (v : BufferView) : ReadOp → Prop
  | .read size _ => ¬ v.WrapsInto P size
  | .readString => v.PrefixedNoWrap P 1
  | .readLongString => v.PrefixedNoWrap P 2
  | .readView n => ¬ v.WrapsInto P n

/-- A reader of this view, its cursor inside or at the end. -/
def Inside (data : Bytes) (v : BufferView) : Prop := v.dataView = data ∧ v.curDataOffset ≤ data.length

section Step

variable {P : Platform} {data : Bytes} {v : BufferView}

/-- In a view shorter than `2 ^ sizeT` the guard errs only by a wrap. -/
theorem wrapsInto_iff (h : v.dataView.length < 2 ^ P.sizeT) (n : Nat) :
    v.WrapsInto P n ↔ v.canReadBytes P n = true ∧ v.dataView.length < v.curDataOffset + n := by
  refine ⟨fun hw => ⟨hw.2, Nat.lt_of_lt_of_le h hw.1⟩, fun hw => ⟨?_, hw.1⟩⟩
  refine Nat.not_lt.mp fun hlt => ?_
  have hcan := of_decide_eq_true hw.1
  rw [Nat.mod_eq_of_lt hlt] at hcan
  omega

/-- A guarded read either throws or ends inside, exactly without such a wrap. -/
theorem GuardedRead.noWrap_iff {α : Type} {n : Nat} {e : Err} {x : α} {r : Except Err α}
    (h : GuardedRead P v n e x r) (hlen : v.dataView.length < 2 ^ P.sizeT) :
    ¬ v.WrapsInto P n ↔ r = .error e ∧ v.canReadBytes P n = false ∨
      r = .ok x ∧ v.curDataOffset + n ≤ v.dataView.length := by
  rw [wrapsInto_iff hlen]
  cases h with
  | throws hcan => simp [hcan]
  | strays hcan hover => simp [hcan, hover]
  | returns hle => simp [hle]

/-- A string reader: an exception, or the bytes it counts. -/
theorem prefixedNoWrap_iff (hlen : v.dataView.length < 2 ^ P.sizeT) (size : Nat) :
    v.PrefixedNoWrap P size ↔ (∃ e : Err, v.readPrefixed P size = .error e ∧ e.isException = true) ∨
      v.curDataOffset + (size + v.numberAt size false) ≤ v.dataView.length ∧
        v.readPrefixed P size = .ok (slice v.dataView (v.curDataOffset + size) (v.numberAt size false),
          v.advance (size + v.numberAt size false)) := by
  have hread := read_guarded P v size false
  have hsize := hread.noWrap_iff hlen
  rw [PrefixedNoWrap, hsize, readPrefixed, ← advance_advance]
  generalize v.read P size false = r at hread
  cases hread with
  | throws hcan =>
    have hover : ¬ v.curDataOffset + size ≤ v.dataView.length := fun hle => by
      rw [canReadBytes_of_le hle] at hcan
      cases hcan
    exact iff_of_true ⟨.inl ⟨rfl, hcan⟩, fun hle => absurd hle hover⟩ (.inl ⟨_, rfl, rfl⟩)
  | strays hcan hover =>
    refine iff_of_false (fun h => ?_) (fun h => ?_)
    · simp [hcan, Nat.not_le.mpr hover] at h
    · obtain ⟨e, he, hex⟩ | ⟨-, h⟩ := h
      · cases he
        cases hex
      · cases h
  | returns hle =>
    have hchars := readChars_guarded P (v.advance size) (v.numberAt size false)
    have hnum := hchars.noWrap_iff (by rwa [advance_dataView])
    simp only [hle, and_true, or_true, true_and, true_imp_iff, hnum]
    show _ ↔ (∃ e : Err, (v.advance size).readChars P (v.numberAt size false) = _ ∧ _) ∨ _ ∧
      (v.advance size).readChars P (v.numberAt size false) = _
    generalize (v.advance size).readChars P (v.numberAt size false) = r at hchars
    cases hchars with
    | throws hcan => simp [hcan, stringTooShort, Err.isException]
    | strays hcan hover => simp [stringTooShort, Err.isException]
    | returns hle' => simp [Nat.add_assoc]

/-- What a read did, as far as the bounds go. -/
def Bounded (P : Platform) (v : BufferView) (op : ReadOp) : Prop :=
  match op.handOut P v with
  | .error e => e.isException = true
  | .ok (y, _) => v.curDataOffset + op.extent v.dataView v.curDataOffset ≤ v.dataView.length ∧
      y.bytesIn v.dataView =
        some (op.decode (slice v.dataView v.curDataOffset (op.extent v.dataView v.curDataOffset)))

theorem slice_drop (b : Bytes) (offset m n : Nat) :
    (slice b offset (m + n)).drop m = slice b (offset + m) n := by
  rw [slice, slice, List.drop_take, List.drop_drop, Nat.add_sub_cancel_left]

/-- A string reader hands out the bytes behind its length. -/
theorem prefixed_bounded_iff (hlen : v.dataView.length < 2 ^ P.sizeT) {op : ReadOp} {size : Nat}
    (hop : op.handOut P v =
      (v.readPrefixed P size >>= fun x => pure (Yield.value (.chars x.1), x.2)))
    (hextent : op.extent v.dataView v.curDataOffset = size + v.numberAt size false)
    (hdecode : ∀ bs, op.decode bs = .chars (bs.drop size)) :
    Bounded P v op ↔ v.PrefixedNoWrap P size := by
  have hreturns := @readPrefixed_eq_ok P v size
  rw [prefixedNoWrap_iff hlen, Bounded, hop, hextent, hdecode, slice_drop]
  generalize v.readPrefixed P size = r at hreturns ⊢
  cases r with
  | error e => simp [bind, Except.bind]
  | ok x =>
    obtain ⟨hle, rfl⟩ := hreturns.mp rfl
    simp [bind, Except.bind, pure, Except.pure, Yield.bytesIn, hle]

theorem value_chars_bind (m : Except Err (Bytes × BufferView)) :
    ((m >>= fun x => pure (Prod.map ReadValue.chars id x)) >>= fun x => pure (Yield.value x.1, x.2)) =
      (m >>= fun x => pure (Yield.value (.chars x.1), x.2) : Except Err (Yield × BufferView)) := by
  cases m <;> rfl

/-- **One read** is in bounds exactly if it lets no wrapped sum through. -/
theorem bounded_iff (hlen : v.dataView.length < 2 ^ P.sizeT) (op : ReadOp) :
    Bounded P v op ↔ NoWrap P v op := by
  cases op with
  | read size be =>
    have h := read_guarded P v size be
    rw [NoWrap, h.noWrap_iff hlen, Bounded, ReadOp.handOut, ReadOp.run]
    · generalize v.read P size be = r at h
      cases h with
      | throws hcan => simp [bind, Except.bind, hcan, tooShort, Err.isException]
      | strays hcan hover => simp [bind, Except.bind, tooShort, Err.isException]
      | returns hle =>
        simp [bind, Except.bind, pure, Except.pure, hle, ReadOp.extent, ReadOp.decode, Yield.bytesIn, numberAt]
    · simp
  | readString => exact prefixed_bounded_iff hlen (value_chars_bind _) rfl fun bs => rfl
  | readLongString => exact prefixed_bounded_iff hlen (value_chars_bind _) rfl fun bs => rfl
  | readView n =>
    rw [NoWrap, wrapsInto_iff hlen, Bounded, ReadOp.handOut, readSpan]
    cases hcan : v.canReadBytes P n with
    | false => simp [bind, Except.bind, tooShort, Err.isException]
    | true =>
      by_cases hle : v.curDataOffset + n ≤ v.dataView.length
      · simp [bind, Except.bind, pure, Except.pure, ReadOp.extent, ReadOp.decode, Yield.bytesIn, hle]
      · simp [bind, Except.bind, pure, Except.pure, ReadOp.extent, hle]

/-! ## The cursor -/

/-- Only the cursor differs, and it is no further out of the view. -/
structure Moves (v w : BufferView) : Prop where
  dataView : w.dataView = v.dataView
  buffer : w.buffer = v.buffer
  inside : v.curDataOffset ≤ v.dataView.length → w.curDataOffset ≤ v.dataView.length

theorem Moves.refl (v : BufferView) : Moves v v := ⟨rfl, rfl, id⟩

theorem moves_advance {n : Nat} (h : v.curDataOffset + n ≤ v.dataView.length) : Moves v (v.advance n) :=
  ⟨rfl, rfl, fun _ => h⟩

theorem abandoned_moves (op : ReadOp) : Moves v (op.abandoned P v) := by
  have hafter : ∀ size, Moves v (((v.read P size false).toOption.map Prod.snd).getD v) := by
    intro size
    have hread := read_guarded P v size false
    generalize v.read P size false = r at hread
    cases hread with
    | throws hcan => exact .refl v
    | strays hcan hover => exact .refl v
    | returns hle => exact moves_advance hle
  cases op with
  | read size be => exact .refl v
  | readView n => exact .refl v
  | readString => exact hafter 1
  | readLongString => exact hafter 2

theorem readOp_moves {op : ReadOp} {x : ReadValue} {w : BufferView} (h : op.run P v = .ok (x, w)) :
    Moves v w := by
  have hbody : ∀ {size y}, v.readPrefixed P size = .ok y → Moves v y.2 := by
    intro size y hy
    obtain ⟨hle, rfl⟩ := readPrefixed_eq_ok.mp hy
    exact moves_advance hle
  cases op with
  | read size be =>
    obtain ⟨y, hy, h⟩ := bind_eq_ok.mp h
    obtain ⟨hle, rfl⟩ := (read_guarded P v size be).eq_ok_iff.mp hy
    cases h
    exact moves_advance hle
  | readView n =>
    obtain ⟨y, hy, h⟩ := bind_eq_ok.mp h
    obtain ⟨hle, rfl⟩ := (readView_guarded P v n).eq_ok_iff.mp hy
    cases h
    exact moves_advance hle
  | readString =>
    obtain ⟨y, hy, h⟩ := bind_eq_ok.mp h
    cases h
    exact hbody hy
  | readLongString =>
    obtain ⟨y, hy, h⟩ := bind_eq_ok.mp h
    cases h
    exact hbody hy

/-- A wrapped sum moves the cursor back, and not out of the view. -/
theorem readSpan_moves {n start : Nat} {w : BufferView} (h : v.readSpan P n = .ok (start, w)) : Moves v w := by
  unfold readSpan at h
  cases hcan : v.canReadBytes P n with
  | false => simp [hcan] at h
  | true =>
    simp only [hcan, Bool.not_true, Bool.false_eq_true, if_false] at h
    cases h
    exact ⟨rfl, rfl, fun _ => of_decide_eq_true hcan⟩

theorem spanStep_moves (op : ReadOp) : Moves v (spanStep P v op).1 := by
  unfold spanStep
  cases h : op.handOut P v with
  | error e => exact abandoned_moves op
  | ok x =>
    cases op with
    | readView n =>
      obtain ⟨y, hy, h⟩ := bind_eq_ok.mp h
      cases h
      exact readSpan_moves hy
    | read | readString | readLongString =>
      obtain ⟨y, hy, h⟩ := bind_eq_ok.mp h
      cases h
      exact readOp_moves hy

theorem Inside.step (hv : Inside data v) (op : ReadOp) : Inside data (spanStep P v op).1 := by
  have hmoves := @spanStep_moves P v op
  obtain ⟨rfl, hcur⟩ := hv
  exact ⟨hmoves.dataView, hmoves.inside hcur⟩

theorem Inside.getRemainingBytes (hv : Inside data v) (hlen : data.length < 2 ^ P.sizeT) :
    v.getRemainingBytes P = data.length - v.curDataOffset := by
  have hle := hv.2
  rw [BufferView.getRemainingBytes, hv.1]
  have hsum : data.length + 2 ^ P.sizeT - v.curDataOffset = data.length - v.curDataOffset + 2 ^ P.sizeT := by
    omega
  rw [hsum, Nat.add_mod_right, Nat.mod_eq_of_lt (by omega)]

end Step

/-! ## The two models of the reader -/

section Agreement

variable {P : Platform} {data : Bytes} {v : BufferView}

/-- `readView` is `readSpan` and the bytes of the span, if it has them all. -/
theorem readView_eq_readSpan (hlen : v.dataView.length < 2 ^ P.sizeT) (n : Nat) :
    v.readView P n = (v.readSpan P n >>= fun x =>
      if v.dataView.length < x.1 + n then .error .outOfBounds else .ok (slice v.dataView x.1 n, x.2)) := by
  rw [readView, readSpan]
  cases hcan : v.canReadBytes P n with
  | false => rfl
  | true =>
    by_cases hover : v.dataView.length < v.curDataOffset + n
    · simp [hover, bind, Except.bind]
    · have hmod : (v.curDataOffset + n) % 2 ^ P.sizeT = v.curDataOffset + n := Nat.mod_eq_of_lt (by omega)
      simp [hover, bind, Except.bind, hmod, slice]

/-- A read that copies its value is the same step of both. -/
theorem spanStep_value {op : ReadOp}
    (h : op.handOut P v = op.run P v >>= fun x => pure (Yield.value x.1, x.2)) :
    (spanStep P v op).1 = (readStep P v op).1 := by
  rw [spanStep, readStep, h]
  cases op.run P v <;> rfl

theorem spanStep_eq_readStep (hlen : v.dataView.length < 2 ^ P.sizeT) {op : ReadOp} (h : NoWrap P v op) :
    (spanStep P v op).1 = (readStep P v op).1 := by
  cases op with
  | read | readString | readLongString => exact spanStep_value rfl
  | readView n =>
    rw [NoWrap, wrapsInto_iff hlen] at h
    simp only [spanStep, readStep, ReadOp.handOut, ReadOp.run, readView_eq_readSpan hlen, readSpan]
    cases hcan : v.canReadBytes P n with
    | false => rfl
    | true =>
      have hle : ¬ v.dataView.length < v.curDataOffset + n := fun hover => h ⟨hcan, hover⟩
      simp [hle, bind, Except.bind, pure, Except.pure]

/-- Over a run that lets no wrapped sum through, the reader that checks the span where it
is made goes through the same views. -/
theorem final_spanStep_eq (hlen : data.length < 2 ^ P.sizeT) {ops : List ReadOp} (hv : Inside data v)
    (h : AllSteps (spanStep P) (NoWrap P) v ops) : final (spanStep P) v ops = final (readStep P) v ops := by
  induction ops generalizing v with
  | nil => rfl
  | cons op ops ih =>
    have hstep := spanStep_eq_readStep (by rwa [hv.1]) h.1
    rw [final_cons, final_cons, ih (hv.step op) h.2, hstep]

end Agreement

/-- **The bounds of the reader**: over any run of reads the cursor stays inside the view
and the remaining bytes are counted from it; every read that succeeds is inside the
view and gives the bytes there exactly if no guard lets a wrapped sum through. -/
theorem reads_in_bounds_iff (P : Platform) (data : Bytes) (ops : List ReadOp)
    (hlen : data.length < 2 ^ P.sizeT) :
    ((final (spanStep P) (.new data) ops).curDataOffset ≤ data.length ∧
      (final (spanStep P) (.new data) ops).getRemainingBytes P =
        data.length - (final (spanStep P) (.new data) ops).curDataOffset ∧
      ∀ e ∈ log (spanStep P) (.new data) ops, e.InBounds data) ↔
      AllSteps (spanStep P) (NoWrap P) (.new data) ops := by
  have hnew : Inside data (.new data) := ⟨rfl, Nat.zero_le _⟩
  have hinside : Inside data (final (spanStep P) (.new data) ops) := Runs.inv _ (fun _ op hv => hv.step op) hnew
  have hlog : (∀ e ∈ log (spanStep P) (.new data) ops, e.InBounds data) ↔
      AllSteps (spanStep P) (NoWrap P) (.new data) ops := by
    rw [forall_log_iff]
    refine allSteps_congr (Inside data) (fun _ op hv => hv.step op) (fun v op hv => ?_) hnew
    rw [← bounded_iff (by rwa [hv.1]) op, Bounded, hv.1, spanStep]
    cases op.handOut P v with
    | error e => simp [ReadEvent.InBounds]
    | ok x => simp [ReadEvent.InBounds]
  rw [hlog]
  exact ⟨fun h => h.2.2, fun h => ⟨hinside.2, hinside.getRemainingBytes hlen, h⟩⟩

/-- A number, and a view longer than what is left: refused. -/
theorem reads_in_bounds_sample :
    let P : Platform := ⟨64, 64, .inr rfl, .inr rfl⟩
    ∀ e ∈ log (spanStep P) (.new [1, 2, 3]) [.read 2 true, .readView 9], e.InBounds [1, 2, 3] :=
  ((reads_in_bounds_iff ⟨64, 64, .inr rfl, .inr rfl⟩ [1, 2, 3] [.read 2 true, .readView 9] (by decide)).mpr (by
    simp [NoWrap, WrapsInto, spanStep, ReadOp.handOut, ReadOp.run, BufferView.read, BufferView.readView,
      canReadBytes, BufferView.new, bind, Except.bind, pure, Except.pure])).2.2

/-- The header of a packet on a 32-bit build, its data length `0xFFFFFFF6`: the decoder
reads five fields, and the guard of the last view sees a zero. -/
theorem packet_length_wraps :
    let P : Platform := ⟨32, 32, .inl rfl, .inl rfl⟩
    let data : Bytes := [0x45, 0x67, 0, 1, 0, 0, 0xFF, 0xFF, 0xFF, 0xF6]
    let ops : List ReadOp :=
      [.read 2 true, .read 2 true, .read 2 true, .read 4 true, .readView 0, .readView 0xFFFFFFF6]
    data.length < 2 ^ P.sizeT ∧
      ∃ e ∈ log (spanStep P) (.new data) ops, e.outcome = .ok (.span 10 0xFFFFFFF6) ∧ ¬ e.InBounds data := by
  intro P data ops
  refine ⟨by decide, ⟨10, .readView 0xFFFFFFF6, .ok (.span 10 0xFFFFFFF6)⟩, ?_, rfl, fun h => ?_⟩
  · simp [ops, data, P, spanStep, ReadOp.handOut, ReadOp.run, BufferView.read, BufferView.readView, readSpan,
      canReadBytes, BufferView.new, bind, Except.bind, pure, Except.pure]
  · exact absurd h.1 (by decide)

end EyPS
