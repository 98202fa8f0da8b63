/-
`ParseNumber` against the grammar of numbers. Its loops take the digits in up to
three stretches, into `i`, `i64` and a double, of which only the first two keep
the value; where a stretch ends, the number has outgrown its type. So an `int`
is read exactly, and a longer number is known to be none.

The power of ten of a double is an `int` too. `Pow10` has an entry for it unless
`int p = exp + expFrac` overflows, which an exponent near `-214748363` times ten
and a few decimals make it do (`doubleEvent_of_le`).
-/
import EyPS.JsonLeaves

namespace EyPS

/-- What the event puts on a document's stack. -/
def SaxEvent.Puts (event : SaxEvent) (v : Json) : Prop :=
  ∀ stack, Document.event stack event = some (v :: stack)

namespace Reader

open Ascii JsonText

/-- What is left after all digits at the start of the text. -/
def TakesDigits (t rest : Bytes) : Prop := ∃ ds, t = ds ++ rest ∧ Digits ds ∧ Stops isDigit rest

namespace TakesDigits

variable {t rest ds r : Bytes}

theorem cons {c : UInt8} (hc : isDigit c = true) (h : TakesDigits t rest) : TakesDigits (c :: t) rest := by
  obtain ⟨ds, rfl, hds, hrest⟩ := h
  exact ⟨c :: ds, rfl, List.forall_mem_cons.mpr ⟨hc, hds⟩, hrest⟩

theorem none (h : Stops isDigit t) : TakesDigits t t := ⟨[], rfl, Digits.nil, h⟩

theorem unique (h : TakesDigits (ds ++ r) rest) (hds : Digits ds) (hr : Stops isDigit r) : rest = r := by
  obtain ⟨ds', ht, hds', hrest⟩ := h
  exact (run_unique hds hds' hr hrest ht).2.symm

theorem append (ht : t = ds ++ r) (hds : Digits ds) (h : TakesDigits r rest) : TakesDigits t rest := by
  obtain ⟨ds', rfl, hds', hrest⟩ := h
  exact ⟨ds ++ ds', by rw [ht, List.append_assoc], List.forall_mem_append.mpr ⟨hds, hds'⟩, hrest⟩

theorem dropWhile (t : Bytes) : TakesDigits t (t.dropWhile isDigit) := by
  induction t with
  | nil => exact none trivial
  | cons c t ih =>
    cases hc : isDigit c with
    | true =>
      rw [List.dropWhile_cons_of_pos hc]
      exact ih.cons hc
    | false =>
      rw [List.dropWhile_cons_of_neg (by simp [hc])]
      exact none hc

end TakesDigits

theorem not_stops_of_isDigit {c : UInt8} {t : Bytes} (hc : isDigit c = true) : ¬ Stops isDigit (c :: t) := by
  simp [Stops, hc]

variable {δ : Type} [Doubles δ]

/-! ## The integer part -/

/-- The digits taken, and why no more; with all of them the number still fits. -/
theorem takeDigits_spec (limit : Nat) {last : UInt8} (hlast : isDigit last = true) (i n : Nat) (t : Bytes) :
    let r := takeDigits limit last i n t
    let max := limit * 10 + (last.toNat - 48)
    ∃ ds, t = ds ++ r.rest ∧ Digits ds ∧ r.value = decimal i ds ∧ (i ≤ max → r.value ≤ max) ∧
      (r.full = false ∧ Stops isDigit r.rest ∨
        r.full = true ∧ ∃ c rest, r.rest = c :: rest ∧ isDigit c = true ∧ max < pushDigit r.value c) := by
  obtain ⟨hlast, hlast'⟩ := isDigit_iff.mp hlast
  induction t generalizing i n with
  | nil => exact ⟨[], rfl, Digits.nil, rfl, id, .inl ⟨rfl, trivial⟩⟩
  | cons c t ih =>
    unfold takeDigits
    by_cases hc : isDigit c = true
    · obtain ⟨hl, hu⟩ := isDigit_iff.mp hc
      rw [if_pos hc]
      split
      next hfull =>
        refine ⟨[], rfl, Digits.nil, rfl, id, .inr ⟨rfl, c, t, rfl, hc, ?_⟩⟩
        obtain ⟨hlimit, hne⟩ := hfull
        rcases Nat.lt_or_eq_of_le hlimit with hlt | rfl
        · show _ < pushDigit i c
          unfold pushDigit
          omega
        · have hlt := UInt8.lt_iff_toNat_lt.mp (hne.resolve_left fun h => h rfl)
          show _ < pushDigit limit c
          unfold pushDigit
          omega
      next hfits =>
        obtain ⟨ds, ht, hds, hvalue, hmax, hend⟩ := ih (pushDigit i c) (n + 1)
        refine ⟨c :: ds, by rw [List.cons_append, ← ht], List.forall_mem_cons.mpr ⟨hc, hds⟩, hvalue,
          fun _ => hmax ?_, hend⟩
        have hle : ¬ limit ≤ i ∨ i = limit ∧ c.toNat ≤ last.toNat := by
          by_cases hlimit : limit ≤ i
          · obtain ⟨heq, hlt⟩ := not_or.mp fun h => hfits ⟨hlimit, h⟩
            exact .inr ⟨not_not.mp heq, UInt8.le_iff_toNat_le.mp (UInt8.not_lt.mp hlt)⟩
          · exact .inl hlimit
        unfold pushDigit
        omega
    · rw [if_neg hc]
      exact ⟨[], rfl, Digits.nil, rfl, id, .inl ⟨rfl, by simpa [Stops] using hc⟩⟩

theorem takeBig_ok {d d' : δ} {t rest : Bytes} (h : takeBig d t = .ok (d', rest)) : TakesDigits t rest := by
  induction t generalizing d with
  | nil =>
    cases h
    exact .none trivial
  | cons c t ih =>
    unfold takeBig at h
    split at h
    next hc =>
      split at h
      next => cases h
      next => exact (ih h).cons hc
    next hc =>
      cases h
      exact .none (by simpa [Stops] using hc)

theorem takeBig_error {d : δ} {t : Bytes} {e : ParseErrorCode} (h : takeBig d t = .error e) : e = .numberTooBig := by
  induction t generalizing d with
  | nil => cases h
  | cons c t ih =>
    unfold takeBig at h
    split at h
    next =>
      split at h
      next =>
        cases h
        rfl
      next => exact ih h
    next => cases h

/-- What `i` holds. -/
def maxUint (minus : Bool) : Nat := if minus then 2 ^ 31 else 2 ^ 32 - 1

/-- What `i64` holds. -/
def maxUint64 (minus : Bool) : Nat := if minus then 2 ^ 63 else 2 ^ 64 - 1

/-- The number read for the integer `n`. -/
def Significand.Holds (minus : Bool) (n : Nat) : Significand δ → Prop
  | .uint i => i = n ∧ n ≤ maxUint minus
  | .uint64 i => i = n ∧ n ≤ maxUint64 minus
  | .double _ => maxUint minus < n

/-- The digits after a stretch that ended with the type full. -/
theorem lt_decimal {i m : Nat} {c : UInt8} {ds : Bytes} (h : m < pushDigit i c) :
    m < decimal i (c :: ds) := Nat.lt_of_lt_of_le h (le_decimal _ ds)

theorem isDigit_last (minus : Bool) : isDigit (if minus then 56 else 53) = true := by
  cases minus <;> decide

/-- The stretches of an integer. -/
theorem parseInt_cases (minus : Bool) {c : UInt8} (hne : c ≠ zero) (hc : isDigit c = true) (t : Bytes) :
    ∃ ds rest n, t = ds ++ rest ∧ Digits ds ∧
      (Stops isDigit rest ∧ decimal 0 (c :: ds) ≤ maxUint minus ∧
          parseInt (δ := δ) minus (c :: t) = .ok (.uint (decimal 0 (c :: ds)), n, rest) ∨
        Stops isDigit rest ∧ maxUint minus < decimal 0 (c :: ds) ∧ decimal 0 (c :: ds) ≤ maxUint64 minus ∧
          parseInt (δ := δ) minus (c :: t) = .ok (.uint64 (decimal 0 (c :: ds)), n, rest) ∨
        ∃ c' r, rest = c' :: r ∧ isDigit c' = true ∧ maxUint minus < decimal 0 (c :: ds) ∧ ∃ d : δ,
          parseInt (δ := δ) minus (c :: t) = (takeBig d rest).map fun taken => (.double taken.1, n, taken.2)) := by
  have hmax : ∀ minus : Bool, (if minus then 214748364 else 429496729) * 10 +
      ((if minus then (56 : UInt8) else 53).toNat - 48) = maxUint minus := by decide
  have hmax64 : ∀ minus : Bool, (if minus then 0x0CCCCCCCCCCCCCCC else 0x1999999999999999) * 10 +
      ((if minus then (56 : UInt8) else 53).toNat - 48) = maxUint64 minus := by decide
  have hc' := isDigit_iff.mp hc
  have hfirst : c.toNat - 48 ≤ maxUint minus := by
    have : 10 ≤ maxUint minus := by cases minus <;> decide
    omega
  have hzero : pushDigit 0 c = c.toNat - 48 := by
    unfold pushDigit
    omega
  simp only [parseInt, if_neg hne, if_pos hc, decimal_cons, hzero]
  have h32 := takeDigits_spec (if minus then 214748364 else 429496729) (isDigit_last minus) (c.toNat - 48) 0 t
  rw [hmax] at h32
  generalize takeDigits (if minus then 214748364 else 429496729) _ _ _ t = i at h32 ⊢
  obtain ⟨ds, rfl, hds, hvalue, hle, ⟨hfull, hstop⟩ | ⟨hfull, c₁, r₁, hrest, hc₁, hlt⟩⟩ := h32
  · refine ⟨ds, i.rest, i.significandDigit, rfl, hds, .inl ⟨hstop, ?_, ?_⟩⟩
    · rw [← hvalue]
      exact hle hfirst
    · simp [hfull, hvalue]
  · have h64 := takeDigits_spec (if minus then 0x0CCCCCCCCCCCCCCC else 0x1999999999999999) (isDigit_last minus)
      i.value i.significandDigit i.rest
    rw [hmax64] at h64
    rw [if_pos hfull]
    generalize takeDigits (if minus then 0x0CCCCCCCCCCCCCCC else 0x1999999999999999) _ _ _ i.rest = j at h64 ⊢
    obtain ⟨ds', hrest', hds', hvalue', hle', hend⟩ := h64
    have hsmall := hle hfirst
    have hwide : 10 * maxUint minus + 9 ≤ maxUint64 minus := by cases minus <;> decide
    -- the digit that did not fit into `i` fits into `i64`
    have hfits : maxUint minus < decimal i.value ds' := by
      have hc₁' := isDigit_iff.mp hc₁
      cases ds' with
      | nil =>
        rw [hrest, List.nil_append] at hrest'
        rcases hend with ⟨-, hstop⟩ | ⟨-, c₂, r₂, hrest₂, -, hlt₂⟩
        · rw [← hrest'] at hstop
          exact absurd hstop (not_stops_of_isDigit hc₁)
        · obtain ⟨rfl, -⟩ := List.cons.inj (hrest'.trans hrest₂)
          rw [hvalue', decimal_nil] at hlt₂
          unfold pushDigit at hlt₂
          omega
      | cons c₂ ds' =>
        obtain ⟨rfl, -⟩ := List.cons.inj (hrest.symm.trans hrest')
        exact lt_decimal hlt
    have hall : decimal (c.toNat - 48) (ds ++ ds') = decimal i.value ds' := by rw [decimal_append, hvalue]
    refine ⟨ds ++ ds', j.rest, j.significandDigit, by rw [hrest', List.append_assoc],
      List.forall_mem_append.mpr ⟨hds, hds'⟩, .inr ?_⟩
    rcases hend with ⟨hfull', hstop⟩ | ⟨hfull', c₂, r₂, hrest₂, hc₂, -⟩
    · refine .inl ⟨hstop, by rwa [hall], ?_, ?_⟩
      · rw [hall, ← hvalue']
        exact hle' (by omega)
      · simp [hfull', hvalue', hall]
    · refine .inr ⟨c₂, r₂, hrest₂, hc₂, by rwa [hall], Doubles.ofUint j.value, ?_⟩
      rw [if_pos hfull']
      cases takeBig (Doubles.ofUint j.value : δ) j.rest <;> rfl

theorem parseInt_ok {minus : Bool} {t rest : Bytes} {sig : Significand δ} {n : Nat}
    (h : parseInt minus t = .ok (sig, n, rest)) :
    ∃ ds, t = ds ++ rest ∧ IntText ds ∧ (ds = [zero] ∨ Stops isDigit rest) ∧ sig.Holds minus (decimal 0 ds) := by
  cases t with
  | nil => cases h
  | cons c t =>
    by_cases hzero : c = zero
    · simp only [parseInt, if_pos hzero] at h
      cases h
      exact ⟨[zero], by simp [hzero], .zero, .inl rfl, decimal_zero.symm, by rw [decimal_zero]; exact Nat.zero_le _⟩
    · by_cases hc : isDigit c = true
      · obtain ⟨ds, r, m, rfl, hds, hcase⟩ := parseInt_cases (δ := δ) minus hzero hc t
        have htext := IntText.digits hc hzero hds
        rcases hcase with ⟨hstop, hle, heq⟩ | ⟨hstop, -, hle, heq⟩ | ⟨c', r', rfl, hc', hlt, d, heq⟩
        · cases heq.symm.trans h
          exact ⟨c :: ds, rfl, htext, .inr hstop, rfl, hle⟩
        · cases heq.symm.trans h
          exact ⟨c :: ds, rfl, htext, .inr hstop, rfl, hle⟩
        · rw [heq] at h
          cases hbig : takeBig d (c' :: r') with
          | error e => simp [hbig, Except.map] at h
          | ok taken =>
            rw [hbig] at h
            cases h
            obtain ⟨ds', hr', hds', hstop⟩ := takeBig_ok hbig
            refine ⟨c :: (ds ++ ds'), by rw [hr', List.cons_append, List.append_assoc],
              .digits hc hzero (List.forall_mem_append.mpr ⟨hds, hds'⟩), .inr hstop, ?_⟩
            have happ := decimal_append 0 (c :: ds) ds'
            rw [List.cons_append] at happ
            show maxUint minus < decimal 0 (c :: (ds ++ ds'))
            rw [happ]
            exact Nat.lt_of_lt_of_le hlt (le_decimal _ ds')
      · simp [parseInt, hzero, hc] at h

/-- Why an integer part is refused: there is none, or it is a number too big. -/
theorem parseInt_error {minus : Bool} {t : Bytes} {e : ParseErrorCode} (h : parseInt (δ := δ) minus t = .error e) :
    Stops isDigit t ∨ e = .numberTooBig ∧ ∃ ds r, t = ds ++ r ∧ Digits ds ∧ maxUint minus < decimal 0 ds := by
  cases t with
  | nil => exact .inl trivial
  | cons c t =>
    by_cases hzero : c = zero
    · simp [parseInt, if_pos hzero] at h
    · by_cases hc : isDigit c = true
      · obtain ⟨ds, r, m, rfl, hds, hcase⟩ := parseInt_cases (δ := δ) minus hzero hc t
        rcases hcase with ⟨-, -, heq⟩ | ⟨-, -, -, heq⟩ | ⟨c', r', rfl, hc', hlt, d, heq⟩
        · cases heq.symm.trans h
        · cases heq.symm.trans h
        · rw [heq] at h
          cases hbig : takeBig d (c' :: r') with
          | ok taken => simp [hbig, Except.map] at h
          | error e' =>
            rw [hbig] at h
            cases h
            exact .inr ⟨takeBig_error hbig, c :: ds, c' :: r', rfl, List.forall_mem_cons.mpr ⟨hc, hds⟩, hlt⟩
      · exact .inl (by simpa [Stops] using hc)

/-- An integer part that is there is read, up to its end. -/
theorem parseInt_complete {errors : ParseErrorCode → Prop} (minus : Bool) {ds r : Bytes} (hds : IntText ds)
    (hr : ds = [zero] ∨ Stops isDigit r) (hbig : ¬ errors .numberTooBig → decimal 0 ds ≤ maxUint minus) :
    ∃ (sig : Significand δ) (n : Nat), Reads errors (parseInt minus (ds ++ r)) (sig, n, r) ∧
      sig.Holds minus (decimal 0 ds) := by
  cases hds with
  | zero =>
    exact ⟨.uint 0, 0, .ok, decimal_zero.symm, by rw [decimal_zero]; exact Nat.zero_le _⟩
  | @digits c ds hc hne hds =>
    have hall : Digits (c :: ds) := List.forall_mem_cons.mpr ⟨hc, hds⟩
    have hstop : Stops isDigit r := hr.resolve_left fun h => hne (List.cons.inj h).1
    cases h : parseInt (δ := δ) minus (c :: ds ++ r) with
    | ok result =>
      obtain ⟨sig, n, rest⟩ := result
      obtain ⟨ds', ht, hds', hrest, hholds⟩ := parseInt_ok h
      have hnil : Digits ds' ∧ Stops isDigit rest := by
        cases hds' with
        | zero =>
          obtain ⟨rfl, -⟩ := List.cons.inj ht
          exact absurd rfl hne
        | digits hc' hne' hds' =>
          exact ⟨List.forall_mem_cons.mpr ⟨hc', hds'⟩, hrest.resolve_left fun h => hne' (List.cons.inj h).1⟩
      obtain ⟨rfl, rfl⟩ := run_unique hall hnil.1 hstop hnil.2 ht
      exact ⟨sig, n, .inl rfl, hholds⟩
    | error e =>
      rcases parseInt_error h with hno | ⟨rfl, ds', r', ht, hds', hlt⟩
      · exact absurd hno (not_stops_of_isDigit hc)
      · have hbig : errors .numberTooBig := by
          by_contra hno
          obtain ⟨e, he⟩ := run_within hds' hstop ht.symm
          have hle := le_decimal (decimal 0 ds') e
          rw [← decimal_append, ← he] at hle
          have := hbig hno
          omega
        by_cases hfits : decimal 0 (c :: ds) ≤ maxUint minus
        · exact ⟨.uint _, 0, .error hbig, rfl, hfits⟩
        · exact ⟨.double (Doubles.ofUint 0), 0, .error hbig, Nat.lt_of_not_le hfits⟩

/-! ## The fraction -/

theorem takeFraction64_spec (i64 places n : Nat) (t : Bytes) :
    let f := takeFraction64 i64 places n t
    ∃ ds, t = ds ++ f.rest ∧ Digits ds ∧ f.places = places + ds.length := by
  induction t generalizing i64 places n with
  | nil => exact ⟨[], rfl, Digits.nil, rfl⟩
  | cons c t ih =>
    unfold takeFraction64
    split
    next hc =>
      obtain ⟨ds, ht, hds, hplaces⟩ := ih (pushDigit i64 c) (places + 1) (if pushDigit i64 c ≠ 0 then n + 1 else n)
      refine ⟨c :: ds, by rw [List.cons_append, ← ht], List.forall_mem_cons.mpr ⟨hc.1, hds⟩, hplaces.trans ?_⟩
      rw [List.length_cons]
      omega
    next => exact ⟨[], rfl, Digits.nil, rfl⟩

/-- All digits are taken, not all of them as places. -/
theorem takeFraction_spec (d : δ) (places n : Nat) (t : Bytes) :
    let f := takeFraction d places n t
    TakesDigits t f.rest ∧ f.places + f.rest.length ≤ places + t.length := by
  induction t generalizing d places n with
  | nil => exact ⟨.none trivial, Nat.le_refl _⟩
  | cons c t ih =>
    unfold takeFraction
    simp only [List.length_cons]
    split
    next hc =>
      split
      next =>
        obtain ⟨htakes, hplaces⟩ := ih (Doubles.push d (c.toNat - 48)) (places + 1)
          (if Doubles.isPos (Doubles.push d (c.toNat - 48)) then n + 1 else n)
        exact ⟨htakes.cons hc, by omega⟩
      next =>
        obtain ⟨htakes, hplaces⟩ := ih d places n
        exact ⟨htakes.cons hc, by omega⟩
    next hc => exact ⟨.none (by simpa [Stops] using hc), by simp⟩

theorem startsDigit_iff {t : Bytes} : startsDigit t = true ↔ ∃ c r, t = c :: r ∧ isDigit c = true := by
  cases t with
  | nil => simp [startsDigit]
  | cons c t => simp [startsDigit]

theorem parseFrac_none {sig : Significand δ} {n : Nat} {t : Bytes} (h : Stops (· = point) t) :
    parseFrac sig n t = .ok (false, 0, t) := by
  cases t with
  | nil => rfl
  | cons c t =>
    have hne : c ≠ point := by simpa [Stops] using h
    simp [parseFrac, consume_eq_none hne]

/-- After a point come digits, and all of them are read. -/
theorem parseFrac_point (sig : Significand δ) (n : Nat) (t : Bytes) :
    (Stops isDigit t ∧ parseFrac sig n (point :: t) = .error .numberMissFraction) ∨
      startsDigit t = true ∧ ∃ places rest, TakesDigits t rest ∧ places + rest.length ≤ t.length ∧
        parseFrac sig n (point :: t) = if 2 ^ 31 < places then .error .undefined else .ok (true, places, rest) := by
  simp only [parseFrac, consume_cons_self]
  cases h : startsDigit t with
  | false =>
    refine .inl ⟨?_, by simp⟩
    cases t with
    | nil => trivial
    | cons c t => exact h
  | true =>
    cases sig with
    | uint i | uint64 i =>
      obtain ⟨ds, ht, hds, hplaces⟩ := takeFraction64_spec i 0 n t
      obtain ⟨htakes, hle⟩ := takeFraction_spec (Doubles.ofUint (takeFraction64 i 0 n t).d : δ)
        (takeFraction64 i 0 n t).places (takeFraction64 i 0 n t).significandDigit (takeFraction64 i 0 n t).rest
      have hlen := congrArg List.length ht
      rw [List.length_append] at hlen
      exact .inr ⟨rfl, _, _, .append ht hds htakes, Nat.le_trans hle (by omega), rfl⟩
    | double d =>
      obtain ⟨htakes, hle⟩ := takeFraction_spec d 0 n t
      exact .inr ⟨rfl, _, _, htakes, Nat.le_trans hle (by omega), rfl⟩

theorem parseFrac_ok {sig : Significand δ} {n places : Nat} {t rest : Bytes} {b : Bool}
    (h : parseFrac sig n t = .ok (b, places, rest)) :
    ∃ f, t = f ++ rest ∧ FracText f ∧ (b = true ↔ f ≠ []) := by
  by_cases hpoint : Stops (· = point) t
  · rw [parseFrac_none hpoint] at h
    cases h
    exact ⟨[], rfl, .none, by simp⟩
  · cases t with
    | nil => exact absurd trivial hpoint
    | cons c t =>
      obtain rfl : c = point := by simpa [Stops] using hpoint
      rcases parseFrac_point sig n t with ⟨-, heq⟩ | ⟨hdigit, places', r, htakes, -, heq⟩
      · cases heq.symm.trans h
      · rw [heq] at h
        split at h
        next => cases h
        next =>
          cases h
          obtain ⟨ds, rfl, hds, hstop⟩ := htakes
          cases ds with
          | nil =>
            obtain ⟨c, r', rfl, hc⟩ := startsDigit_iff.mp hdigit
            exact absurd hstop (not_stops_of_isDigit hc)
          | cons c ds => exact ⟨point :: c :: ds, rfl, .some hds, by simp⟩

/-- A fraction that is there is read, up to its end, unless it is too long. -/
theorem parseFrac_complete {errors : ParseErrorCode → Prop} (sig : Significand δ) (n : Nat) {f r : Bytes}
    (hf : FracText f) (hpoint : Stops (· = point) r) (hr : Stops isDigit r)
    (hmoderate : ¬ errors .undefined → f.length < 2 ^ 27) :
    ∃ b places, Reads errors (parseFrac sig n (f ++ r)) (b, places, r) ∧ (b = true ↔ f ≠ []) ∧ places ≤ f.length := by
  cases hf with
  | none => exact ⟨false, 0, .inl (parseFrac_none hpoint), by simp, Nat.le_refl 0⟩
  | @some c ds hds =>
    rcases parseFrac_point sig n (c :: ds ++ r) with ⟨hstop, -⟩ | ⟨-, places, rest, htakes, hplaces, heq⟩
    · exact absurd hstop (not_stops_of_isDigit (hds c List.mem_cons_self))
    · obtain rfl := htakes.unique hds hr
      have hle : places ≤ (c :: ds).length := by
        rw [List.length_append] at hplaces
        omega
      refine ⟨true, places, ?_, by simp, by rw [List.length_cons]; omega⟩
      rw [List.cons_append, heq]
      split
      next hlong =>
        refine .error (not_not.mp fun hno => ?_)
        have hshort := hmoderate hno
        rw [List.length_cons] at hshort
        omega
      next => exact .ok

/-! ## The exponent -/

theorem takesDigits_takeNegExp (exp : Nat) (t : Bytes) : TakesDigits t (takeNegExp exp t).2 := by
  induction t generalizing exp with
  | nil => exact .none trivial
  | cons c t ih =>
    unfold takeNegExp
    split
    next hc =>
      dsimp only
      split
      next => exact (TakesDigits.dropWhile t).cons hc
      next => exact (ih _).cons hc
    next hc => exact .none (by simpa [Stops] using hc)

/-- A negative exponent is no larger than its digits say. -/
theorem takeNegExp_le (exp : Nat) {ds r : Bytes} (hds : Digits ds) (hr : Stops isDigit r) :
    (takeNegExp exp (ds ++ r)).1 ≤ decimal exp ds := by
  induction ds generalizing exp with
  | nil =>
    cases r with
    | nil => exact Nat.le_refl _
    | cons c r =>
      have hc : isDigit c = false := hr
      simp [takeNegExp, hc]
  | cons c ds ih =>
    obtain ⟨hc, hds⟩ := List.forall_mem_cons.mp hds
    rw [List.cons_append, takeNegExp, if_pos hc, decimal_cons]
    dsimp only
    split
    next => exact le_decimal _ ds
    next => exact ih _ hds

theorem takeExp_ok {maxExp exp exp' : Nat} {t rest : Bytes} (h : takeExp maxExp exp t = .ok (exp', rest)) :
    TakesDigits t rest ∧ (exp ≤ maxExp → exp' ≤ maxExp) := by
  induction t generalizing exp with
  | nil =>
    cases h
    exact ⟨.none trivial, id⟩
  | cons c t ih =>
    unfold takeExp at h
    split at h
    next hc =>
      dsimp only at h
      split at h
      next => cases h
      next =>
        split at h
        next => cases h
        next hle =>
          obtain ⟨htakes, hmax⟩ := ih h
          exact ⟨htakes.cons hc, fun _ => hmax (Nat.le_of_not_lt hle)⟩
    next hc =>
      cases h
      exact ⟨.none (by simpa [Stops] using hc), id⟩

/-- Why a positive exponent is refused. -/
theorem takeExp_error {maxExp exp : Nat} {t : Bytes} {e : ParseErrorCode} (h : takeExp maxExp exp t = .error e) :
    e = .numberTooBig ∨ e = .undefined ∧ (exp ≤ maxExp → 2 ^ 31 ≤ 10 * maxExp + 9) := by
  induction t generalizing exp with
  | nil => cases h
  | cons c t ih =>
    unfold takeExp at h
    split at h
    next hc =>
      obtain ⟨-, hu⟩ := isDigit_iff.mp hc
      dsimp only at h
      split at h
      next hlong =>
        cases h
        refine .inr ⟨rfl, fun hle => ?_⟩
        unfold pushDigit at hlong
        omega
      next =>
        split at h
        next =>
          cases h
          exact .inl rfl
        next hle =>
          rcases ih h with he | ⟨he, hmax⟩
          · exact .inl he
          · exact .inr ⟨he, fun _ => hmax (Nat.le_of_not_lt hle)⟩
    next => cases h

/-- The digits of an exponent are all read, but for one too big. -/
theorem parseExpDigits_cons (places : Nat) (expMinus : Bool) {c : UInt8} {ds r : Bytes} (hds : Digits (c :: ds))
    (hr : Stops isDigit r) :
    (∃ exp : Int, exp ≤ 308 + places ∧ -((if expMinus then decimal 0 (c :: ds) else 0 : Nat) : Int) ≤ exp ∧
        parseExpDigits places expMinus (c :: (ds ++ r)) = .ok (some exp, r)) ∨
      parseExpDigits places expMinus (c :: (ds ++ r)) = .error .numberTooBig ∨
      2 ^ 27 ≤ places ∧ parseExpDigits places expMinus (c :: (ds ++ r)) = .error .undefined := by
  obtain ⟨hc, hds⟩ := List.forall_mem_cons.mp hds
  obtain ⟨-, hu⟩ := isDigit_iff.mp hc
  simp only [parseExpDigits, if_pos hc]
  cases expMinus with
  | true =>
    have hrest : (takeNegExp (c.toNat - 48) (ds ++ r)).2 = r := (takesDigits_takeNegExp _ _).unique hds hr
    have hle := takeNegExp_le (c.toNat - 48) hds hr
    have hzero : pushDigit 0 c = c.toNat - 48 := by
      unfold pushDigit
      omega
    refine .inl ⟨-(takeNegExp (c.toNat - 48) (ds ++ r)).1, by omega, ?_, ?_⟩
    · rw [decimal_cons, hzero]
      exact Int.neg_le_neg (Int.ofNat_le.mpr hle)
    · rw [if_pos rfl, hrest]
  | false =>
    rw [if_neg Bool.false_ne_true, if_neg Bool.false_ne_true]
    split
    next hlong => exact .inr (.inr ⟨by omega, rfl⟩)
    next =>
      cases h : takeExp (308 + places) (c.toNat - 48) (ds ++ r) with
      | ok taken =>
        obtain ⟨exp, rest⟩ := taken
        obtain ⟨htakes, hmax⟩ := takeExp_ok h
        obtain rfl := htakes.unique hds hr
        have hle := hmax (by omega)
        exact .inl ⟨exp, by omega, by omega, rfl⟩
      | error e =>
        rcases takeExp_error h with rfl | ⟨rfl, hmax⟩
        · exact .inr (.inl rfl)
        · have hlong := hmax (by omega)
          exact .inr (.inr ⟨by omega, rfl⟩)

theorem parseExpDigits_ok {places : Nat} {expMinus : Bool} {t rest : Bytes} {exp : Option Int}
    (h : parseExpDigits places expMinus t = .ok (exp, rest)) :
    exp.isSome = true ∧ ∃ c ds, t = c :: (ds ++ rest) ∧ Digits (c :: ds) ∧ Stops isDigit rest := by
  cases t with
  | nil => cases h
  | cons c t =>
    by_cases hc : isDigit c = true
    · obtain ⟨ds, ht, hds, hstop⟩ := TakesDigits.dropWhile t
      have hall : Digits (c :: ds) := List.forall_mem_cons.mpr ⟨hc, hds⟩
      rw [ht] at h
      rcases parseExpDigits_cons places expMinus hall hstop with ⟨exp', -, -, heq⟩ | heq | ⟨-, heq⟩
      · cases heq.symm.trans h
        exact ⟨rfl, c, ds, by rw [← ht], hall, hstop⟩
      · cases heq.symm.trans h
      · cases heq.symm.trans h
    · simp [parseExpDigits, hc] at h

/-- An exponent may begin here. -/
def isExp (c : UInt8) : Bool := c = lowerE || c = upperE

theorem isExp_iff {c : UInt8} : isExp c = true ↔ c = lowerE ∨ c = upperE := by simp [isExp]

theorem parseExp_none {places : Nat} {t : Bytes} (h : Stops isExp t) : parseExp places t = .ok (none, t) := by
  cases t with
  | nil => rfl
  | cons c t =>
    have hne : ¬ (c = lowerE ∨ c = upperE) := by simpa [Stops, isExp] using h
    simp [parseExp, hne]

theorem parseExp_some (places : Nat) {e : UInt8} (he : e = lowerE ∨ e = upperE) {sgn : Bytes}
    (hsign : sgn = [] ∨ sgn = [plus] ∨ sgn = [minus]) {c : UInt8} (hc : isDigit c = true) (ds t : Bytes) :
    ∃ expMinus, parseExp places (e :: (sgn ++ c :: t)) = parseExpDigits places expMinus (c :: t) ∧
      (if expMinus then decimal 0 (c :: ds) else 0) = negExp (e :: (sgn ++ c :: ds)) := by
  have hplus : c ≠ plus := fun h => absurd hc (by rw [h]; decide)
  have hminus : c ≠ minus := fun h => absurd hc (by rw [h]; decide)
  simp only [parseExp, if_pos he]
  rcases hsign with rfl | rfl | rfl
  · exact ⟨false, by simp [consume_eq_none hplus, consume_eq_none hminus], by simp [negExp, hminus]⟩
  · exact ⟨false, by simp, by simp [negExp, show plus ≠ minus by decide]⟩
  · exact ⟨true, by simp [consume_eq_none (show minus ≠ plus by decide)], by simp [negExp]⟩

theorem parseExp_ok {places : Nat} {t rest : Bytes} {exp : Option Int} (h : parseExp places t = .ok (exp, rest)) :
    ∃ x, t = x ++ rest ∧ ExpText x ∧ (exp.isSome = true ↔ x ≠ []) := by
  cases t with
  | nil =>
    cases h
    exact ⟨[], rfl, .none, by simp⟩
  | cons e t =>
    by_cases he : e = lowerE ∨ e = upperE
    · have hread : ∀ {sgn r : Bytes} {expMinus : Bool}, (sgn = [] ∨ sgn = [plus] ∨ sgn = [minus]) → t = sgn ++ r →
          parseExpDigits places expMinus r = .ok (exp, rest) →
          ∃ x, e :: t = x ++ rest ∧ ExpText x ∧ (exp.isSome = true ↔ x ≠ []) := by
        intro sgn r expMinus hsign ht hr
        obtain ⟨hsome, c, ds, rfl, hds, -⟩ := parseExpDigits_ok hr
        exact ⟨e :: (sgn ++ c :: ds), by simp [ht], .some he hsign hds, by simp [hsome]⟩
      simp only [parseExp, if_pos he] at h
      cases hplus : consume [plus] t with
      | some r =>
        simp only [hplus] at h
        exact hread (.inr (.inl rfl)) (consume_eq_some.mp hplus) h
      | none =>
        simp only [hplus] at h
        cases hminus : consume [minus] t with
        | some r =>
          simp only [hminus] at h
          exact hread (.inr (.inr rfl)) (consume_eq_some.mp hminus) h
        | none =>
          simp only [hminus] at h
          exact hread (.inl rfl) rfl h
    · rw [parseExp_none (by simpa [Stops, isExp] using he)] at h
      cases h
      exact ⟨[], rfl, .none, by simp⟩

/-- An exponent that is there is read, up to its end, unless it is too big. -/
theorem parseExp_complete {errors : ParseErrorCode → Prop} (places : Nat) {x r : Bytes} (hx : ExpText x)
    (hexp : Stops isExp r) (hr : Stops isDigit r) (hbig : ¬ errors .numberTooBig → x = [])
    (hmoderate : ¬ errors .undefined → places < 2 ^ 27) :
    ∃ exp : Option Int, Reads errors (parseExp places (x ++ r)) (exp, r) ∧ (exp.isSome = true ↔ x ≠ []) ∧
      exp.getD 0 ≤ 308 + places ∧ -(negExp x : Int) ≤ exp.getD 0 := by
  cases hx with
  | none => exact ⟨none, .inl (parseExp_none hexp), by simp, by simp; omega, by simp [negExp]⟩
  | @some e sgn c ds he hsign hds =>
    have hbig : errors .numberTooBig := not_not.mp fun h => by simpa using hbig h
    have hc := hds c List.mem_cons_self
    obtain ⟨expMinus, heq, hneg⟩ := parseExp_some places he hsign hc ds (ds ++ r)
    rw [List.cons_append, List.append_assoc, List.cons_append, heq]
    rcases parseExpDigits_cons places expMinus hds hr with ⟨exp, hle, hge, hok⟩ | herror | ⟨hlong, herror⟩
    · rw [hneg] at hge
      exact ⟨some exp, .inl hok, by simp, hle, hge⟩
    · exact ⟨some 0, herror ▸ .error hbig, by simp, by simp; omega, by simp⟩
    · have hundefined : errors .undefined := not_not.mp fun hno => absurd (hmoderate hno) (Nat.not_lt.mpr hlong)
      exact ⟨some 0, herror ▸ .error hundefined, by simp, by simp; omega, by simp⟩

/-! ## The power of ten -/

/-- No assertion fails on a power of ten that is not too big, if an `int` holds it. -/
theorem doubleEvent_of_le {p : Int} (h : p ≤ 308) :
    doubleEvent p = if -2 ^ 31 ≤ p then .ok .double else .error .undefined := by
  have hpow : strtodNormalPrecision p = true := by
    unfold strtodNormalPrecision fastPath pow10
    grind
  rw [doubleEvent, hpow]
  simp

theorem doubleEvent_ok {p : Int} {event : SaxEvent} (h : doubleEvent p = .ok event) : event = .double := by
  unfold doubleEvent at h
  split at h
  next =>
    cases h
    rfl
  next => cases h

/-! ## Numbers -/

omit [Doubles δ] in
theorem integerEvent_puts {minus : Bool} {n : Nat} {sig : Significand δ} (h : sig.Holds minus n) :
    (integerEvent minus sig).Puts (.ofInt (signed minus n)) := by
  intro stack
  cases sig with
  | uint i =>
    obtain ⟨rfl, hle⟩ := h
    cases minus with
    | true =>
      have hle : i ≤ 2 ^ 31 := hle
      have hint : (Int32.ofInt (-(i : Int))).toInt = -i := Int32.toInt_ofInt_of_le (by omega) (by omega)
      simp only [integerEvent, Document.event, signed, hint, if_true]
    | false =>
      have hle : i ≤ 2 ^ 32 - 1 := hle
      have hnat : (UInt32.ofNat i).toNat = i := UInt32.toNat_ofNat_of_lt' (by simp [UInt32.size]; omega)
      simp only [integerEvent, Document.event, signed, hnat, Bool.false_eq_true, if_false]
  | uint64 i =>
    obtain ⟨rfl, hle⟩ := h
    cases minus with
    | true =>
      have hle : i ≤ 2 ^ 63 := hle
      have hint : (Int64.ofInt (-(i : Int))).toInt = -i := Int64.toInt_ofInt_of_le (by omega) (by omega)
      simp only [integerEvent, Document.event, signed, hint, if_true]
    | false =>
      have hle : i ≤ 2 ^ 64 - 1 := hle
      have hnat : (UInt64.ofNat i).toNat = i := UInt64.toNat_ofNat_of_lt' (by simp [UInt64.size]; omega)
      simp only [integerEvent, Document.event, signed, hnat, Bool.false_eq_true, if_false]
  | double d =>
    have hout : ¬ (-2 ^ 31 ≤ signed minus n ∧ signed minus n < 2 ^ 31) := by
      cases minus with
      | true =>
        have hlt : 2 ^ 31 < n := h
        simp only [signed, if_true]
        omega
      | false =>
        have hlt : 2 ^ 32 - 1 < n := h
        simp only [signed, Bool.false_eq_true, if_false]
        omega
    rw [Json.ofInt, if_neg hout]
    rfl

/-- A number could go on with this byte. -/
def isNumeric (c : UInt8) : Bool := isDigit c || c = point || isExp c

theorem stops_of_isNumeric {kind : UInt8 → Bool} (hkind : ∀ c, kind c = true → isNumeric c = true) {t : Bytes}
    (h : Stops isNumeric t) : Stops kind t := by
  cases t with
  | nil => trivial
  | cons c t =>
    show kind c = false
    by_contra hc
    have hc := hkind c (by simpa using hc)
    simp [Stops, hc] at h

theorem parseUnsigned_ok {minus : Bool} {t rest : Bytes} {event : SaxEvent}
    (h : parseUnsigned δ minus t = .ok (event, rest)) :
    ∃ u v, t = u ++ rest ∧ NumberText v (sign minus ++ u) ∧ event.Puts v := by
  obtain ⟨⟨sig, n, t₁⟩, hint, h₁⟩ := bind_eq_ok.mp h
  obtain ⟨⟨frac, places, t₂⟩, hfrac, h₂⟩ := bind_eq_ok.mp h₁
  obtain ⟨⟨exp, t₃⟩, hexp, h₃⟩ := bind_eq_ok.mp h₂
  obtain ⟨ds, rfl, hds, -, hholds⟩ := parseInt_ok hint
  obtain ⟨f, rfl, hf, hfraciff⟩ := parseFrac_ok hfrac
  obtain ⟨x, rfl, hx, hexpiff⟩ := parseExp_ok hexp
  dsimp only at h₃
  by_cases hdouble : frac = true ∨ exp.isSome = true
  · rw [if_pos (by simpa using hdouble)] at h₃
    obtain ⟨event', hevent, hend⟩ := bind_eq_ok.mp h₃
    obtain ⟨rfl, rfl⟩ := Prod.mk.inj (Except.ok.inj hend)
    obtain rfl := doubleEvent_ok hevent
    exact ⟨ds ++ (f ++ x), .number, by simp, .double hds hf hx (hdouble.imp hfraciff.mp hexpiff.mp), fun _ => rfl⟩
  · rw [if_neg (by simpa using hdouble)] at h₃
    obtain ⟨rfl, rfl⟩ := Prod.mk.inj (Except.ok.inj h₃)
    obtain ⟨hno, hno'⟩ := not_or.mp hdouble
    obtain rfl : f = [] := not_not.mp fun hne => hno (hfraciff.mpr hne)
    obtain rfl : x = [] := not_not.mp fun hne => hno' (hexpiff.mpr hne)
    exact ⟨ds, _, by simp, .integer hds, integerEvent_puts hholds⟩

theorem parseNumber_ok {t rest : Bytes} {events : List SaxEvent} (h : parseNumber δ t = .ok (events, rest)) :
    ∃ u v event, t = u ++ rest ∧ NumberText v u ∧ events = [event] ∧ event.Puts v := by
  unfold parseNumber at h
  cases hminus : consume [minus] t with
  | some t' =>
    simp only [hminus] at h
    obtain ⟨⟨event, r⟩, hread, hevents⟩ := bind_eq_ok.mp h
    obtain ⟨rfl, rfl⟩ := Prod.mk.inj (Except.ok.inj hevents)
    obtain rfl := consume_eq_some.mp hminus
    obtain ⟨u, v, rfl, hu, hputs⟩ := parseUnsigned_ok hread
    exact ⟨minus :: u, v, event, rfl, hu, rfl, hputs⟩
  | none =>
    simp only [hminus] at h
    obtain ⟨⟨event, r⟩, hread, hevents⟩ := bind_eq_ok.mp h
    obtain ⟨rfl, rfl⟩ := Prod.mk.inj (Except.ok.inj hevents)
    obtain ⟨u, v, rfl, hu, hputs⟩ := parseUnsigned_ok hread
    exact ⟨u, v, event, rfl, hu, rfl, hputs⟩

theorem stops_exp {x r : Bytes} {kind : UInt8 → Bool} (hx : ExpText x) (hkind : ∀ c, isExp c = true → kind c = false)
    (hr : Stops kind r) : Stops kind (x ++ r) := by
  cases hx with
  | none => exact hr
  | some he => exact hkind _ (isExp_iff.mpr he)

theorem stops_frac {f r : Bytes} (hf : FracText f) (hr : Stops isDigit r) : Stops isDigit (f ++ r) := by
  cases hf with
  | none => exact hr
  | some => exact (by decide : isDigit point = false)

/-- A number that is there is read, up to its end, unless it is too big or its power of
ten is. -/
theorem parseUnsigned_complete {errors : ParseErrorCode → Prop} (minus : Bool) {ds f x r : Bytes} (hds : IntText ds)
    (hf : FracText f) (hx : ExpText x) (hr : Stops isNumeric r)
    (hbig : ¬ errors .numberTooBig → decimal 0 ds ≤ maxUint minus ∧ x = [])
    (hmoderate : ¬ errors .undefined → Moderate f x) :
    ∃ event, Reads errors (parseUnsigned δ minus (ds ++ (f ++ (x ++ r)))) (event, r) ∧
      event.Puts (if f = [] ∧ x = [] then .ofInt (signed minus (decimal 0 ds)) else .number) := by
  have hdigit : Stops isDigit r := stops_of_isNumeric (fun c hc => by simp [isNumeric, hc]) hr
  have hpoint : Stops (· = point) r := stops_of_isNumeric (fun c hc => by
    simp [isNumeric, show c = point by simpa using hc]) hr
  have hexp : Stops isExp r := stops_of_isNumeric (fun c hc => by simp [isNumeric, hc]) hr
  have hpointx : Stops (· = point) (x ++ r) := stops_exp hx (fun c hc => by
    rcases isExp_iff.mp hc with rfl | rfl <;> decide) hpoint
  have hdigitx : Stops isDigit (x ++ r) := stops_exp hx (fun c hc => by
    rcases isExp_iff.mp hc with rfl | rfl <;> decide) hdigit
  obtain ⟨sig, n, hint, hholds⟩ := parseInt_complete (δ := δ) minus hds (.inr (stops_frac hf hdigitx))
    fun h => (hbig h).1
  obtain ⟨frac, places, hfrac, hfraciff, hplaces⟩ := parseFrac_complete sig n hf hpointx hdigitx
    fun h => (hmoderate h).1
  obtain ⟨exp, hexp, hexpiff, hle, hge⟩ := parseExp_complete places hx hexp hdigit (fun h => (hbig h).2)
    fun h => Nat.lt_of_le_of_lt hplaces (hmoderate h).1
  by_cases hdouble : frac = true ∨ exp.isSome = true
  · refine ⟨.double, hint.bind (hfrac.bind (hexp.bind ?_)), ?_⟩
    · dsimp only
      rw [if_pos (by simpa using hdouble), doubleEvent_of_le (by omega)]
      refine Reads.bind ?_ .ok
      split
      next => exact .ok
      next hout =>
        refine .error (not_not.mp fun hno => hout ?_)
        obtain ⟨-, hfits⟩ := hmoderate hno
        omega
    · rw [if_neg fun h => hdouble.elim (fun hf => hfraciff.mp hf h.1) fun hx => hexpiff.mp hx h.2]
      exact fun _ => rfl
  · obtain ⟨hno, hno'⟩ := not_or.mp hdouble
    refine ⟨integerEvent minus sig, hint.bind (hfrac.bind (hexp.bind ?_)), ?_⟩
    · dsimp only
      rw [if_neg (by simpa using hdouble)]
      exact .ok
    · rw [if_pos ⟨not_not.mp fun hne => hno (hfraciff.mpr hne), not_not.mp fun hne => hno' (hexpiff.mpr hne)⟩]
      exact integerEvent_puts hholds

theorem parseNumber_sign (neg : Bool) {ds t : Bytes} (hds : IntText ds) :
    parseNumber δ (sign neg ++ (ds ++ t)) = do
      let (event, t) ← parseUnsigned δ neg (ds ++ t)
      return ([event], t) := by
  cases neg with
  | true => simp [parseNumber, sign]
  | false =>
    have hnone : consume [minus] (ds ++ t) = none := by
      cases hds with
      | zero => rfl
      | @digits c ds hc => exact consume_eq_none fun h => absurd hc (by rw [h]; decide)
    simp [parseNumber, sign, hnone]

/-- An integer that `i` holds: it is never too big. -/
def ShortNumber (v : Json) (u : Bytes) : Prop :=
  ∃ neg ds, IntText ds ∧ decimal 0 ds ≤ maxUint neg ∧ v = .ofInt (signed neg (decimal 0 ds)) ∧ u = sign neg ++ ds

theorem ShortNumber.numberText {v : Json} {u : Bytes} (h : ShortNumber v u) : NumberText v u := by
  obtain ⟨neg, ds, hds, -, rfl, rfl⟩ := h
  exact .integer hds

/-- The number is read from a text that begins with it, and up to its end. -/
def NumberRead (δ : Type) [Doubles δ] (errors : ParseErrorCode → Prop) (v : Json) (u : Bytes) : Prop :=
  ∀ r, Stops isNumeric r → ∃ event, Reads errors (parseNumber δ (u ++ r)) ([event], r) ∧ event.Puts v

section Complete

variable {errors : ParseErrorCode → Prop}

theorem numberRead (neg : Bool) {ds f x : Bytes} (hds : IntText ds) (hf : FracText f) (hx : ExpText x)
    (hbig : ¬ errors .numberTooBig → decimal 0 ds ≤ maxUint neg ∧ x = [])
    (hmoderate : ¬ errors .undefined → Moderate f x) :
    NumberRead δ errors (if f = [] ∧ x = [] then .ofInt (signed neg (decimal 0 ds)) else .number)
      (sign neg ++ (ds ++ (f ++ x))) := by
  intro r hr
  obtain ⟨event, hread, hputs⟩ := parseUnsigned_complete (δ := δ) neg hds hf hx hr hbig hmoderate
  rw [List.append_assoc, List.append_assoc, List.append_assoc, parseNumber_sign neg hds]
  exact ⟨event, hread.bind .ok, hputs⟩

theorem numberRead_integer (neg : Bool) {ds : Bytes} (hds : IntText ds)
    (hbig : ¬ errors .numberTooBig → decimal 0 ds ≤ maxUint neg) :
    NumberRead δ errors (.ofInt (signed neg (decimal 0 ds))) (sign neg ++ ds) := by
  have h : NumberRead δ errors _ _ := numberRead neg hds .none .none (fun h => ⟨hbig h, rfl⟩)
    fun _ => ⟨by decide, by decide⟩
  simpa using h

theorem shortNumber_read {v : Json} {u : Bytes} (h : ShortNumber v u) : NumberRead δ (fun _ => False) v u := by
  obtain ⟨neg, ds, hds, hle, rfl, rfl⟩ := h
  exact numberRead_integer neg hds fun _ => hle

end Complete

end Reader

end EyPS
