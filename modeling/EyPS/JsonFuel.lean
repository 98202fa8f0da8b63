/-
The fuel that `parse` gives to the recursion of `ParseValue` is enough for every
text, so an error is one the source reports. With that the document is
characterised: `parse_exact`.
-/
import EyPS.JsonParse

namespace EyPS

/-- Fuel is not what this ends for. -/
def Ends {α : Type} (result : Except ParseErrorCode α) : Prop := result ≠ .error .termination

namespace Ends

variable {α β : Type} {result : Except ParseErrorCode α} {f : α → Except ParseErrorCode β}

theorem ok {a : α} : Ends (.ok a) := by simp [Ends]

theorem bind (h : Ends result) (hf : ∀ a, result = .ok a → Ends (f a)) : Ends (result >>= f) := by
  cases result with
  | ok a => exact hf a rfl
  | error e => exact fun he => h (congrArg Except.error (Except.error.inj he))

theorem error {e : ParseErrorCode} (h : e ≠ .termination) : Ends (.error e : Except ParseErrorCode α) :=
  fun he => h (Except.error.inj he)

theorem map {g : α → β} (h : Ends result) : Ends (result.map g) := by
  cases result with
  | ok a => exact ok
  | error e => exact error fun he => h (by rw [he])

end Ends

namespace Reader

open Ascii JsonText

variable {δ : Type} [Doubles δ]

/-! ## Leaves -/

theorem ends_parseWord (word : Bytes) (event : SaxEvent) (t : Bytes) : Ends (parseWord word event t) := by
  unfold parseWord
  split
  · exact .ok
  · exact .error (by decide)

theorem ends_parseHex (n cp : Nat) (t : Bytes) : Ends (parseHex n cp t) := by
  induction n generalizing cp t with
  | zero => exact .ok
  | succ n ih =>
    cases t with
    | nil => exact .error (by decide)
    | cons c t =>
      unfold parseHex
      split
      · exact ih _ _
      · exact .error (by decide)

theorem ends_parseEscape (t : Bytes) : Ends (parseEscape t) := by
  cases t with
  | nil => exact .error (by decide)
  | cons e t =>
    simp only [parseEscape]
    split
    · exact .ok
    · split
      · refine (ends_parseHex 4 0 t).bind fun a _ => ?_
        split
        · split
          · exact .error (by decide)
          · refine (ends_parseHex 4 0 _).bind fun b _ => ?_
            split
            · exact .ok
            · exact .error (by decide)
        · exact .ok
      · exact .error (by decide)

theorem ends_parseStringToStream {fuel : Nat} {t : Bytes} (hfuel : t.length < fuel) :
    Ends (parseStringToStream fuel t) := by
  induction fuel generalizing t with
  | zero => omega
  | succ fuel ih =>
    cases t with
    | nil => exact .error (by decide)
    | cons c t =>
      have hlen : t.length < fuel := by simpa using hfuel
      unfold parseStringToStream
      split
      · refine (ends_parseEscape t).bind fun a ha => ?_
        obtain ⟨e, he, -⟩ := parseEscape_sound ha
        have hrest : a.2.length < fuel := by
          rw [he, List.length_append] at hlen
          omega
        exact (ih hrest).bind fun _ _ => .ok
      · split
        · exact .ok
        · split
          · split <;> exact .error (by decide)
          · exact (ih hlen).bind fun _ _ => .ok

theorem ends_parseString (t : Bytes) : Ends (parseString t) := ends_parseStringToStream (Nat.lt_succ_self _)

theorem ends_parseInt (minus : Bool) (t : Bytes) : Ends (parseInt (δ := δ) minus t) := by
  intro h
  cases t with
  | nil => cases h
  | cons c t =>
    rcases parseInt_error h with hstop | ⟨he, -⟩
    · by_cases hzero : c = zero
      · simp [parseInt, hzero] at h
      · have hc : isDigit c = false := hstop
        simp [parseInt, hzero, hc] at h
    · cases he

theorem ends_parseFrac (sig : Significand δ) (n : Nat) (t : Bytes) : Ends (parseFrac sig n t) := by
  have hplaces : ∀ f : Fraction δ, Ends (if 2 ^ 31 < f.places then .error .undefined
      else .ok (true, f.places, f.rest) : Except ParseErrorCode (Bool × Nat × Bytes)) := by
    intro f
    split
    · exact .error (by decide)
    · exact .ok
  unfold parseFrac
  split
  · split
    · exact hplaces _
    · exact .error (by decide)
  · exact .ok

theorem ends_takeExp (maxExp exp : Nat) (t : Bytes) : Ends (takeExp maxExp exp t) := by
  intro h
  rcases takeExp_error h with he | ⟨he, -⟩ <;> cases he

theorem ends_parseExpDigits (places : Nat) (expMinus : Bool) (t : Bytes) : Ends (parseExpDigits places expMinus t) := by
  cases t with
  | nil => exact .error (by decide)
  | cons c t =>
    simp only [parseExpDigits]
    split
    · split
      · exact .ok
      · split
        · exact .error (by decide)
        · exact (ends_takeExp _ _ _).map
    · exact .error (by decide)

theorem ends_parseExp (places : Nat) (t : Bytes) : Ends (parseExp places t) := by
  cases t with
  | nil => exact .ok
  | cons c t =>
    simp only [parseExp]
    split
    · split
      · exact ends_parseExpDigits _ _ _
      · split <;> exact ends_parseExpDigits _ _ _
    · exact .ok

theorem ends_doubleEvent (p : Int) : Ends (doubleEvent p) := by
  unfold doubleEvent
  split
  · exact .ok
  · exact .error (by decide)

theorem ends_parseUnsigned (minus : Bool) (t : Bytes) : Ends (parseUnsigned δ minus t) := by
  refine (ends_parseInt minus t).bind fun _ _ => (ends_parseFrac _ _ _).bind fun _ _ =>
    (ends_parseExp _ _).bind fun _ _ => ?_
  dsimp only
  split
  · exact (ends_doubleEvent _).bind fun _ _ => .ok
  · exact .ok

theorem ends_parseNumber (t : Bytes) : Ends (parseNumber δ t) := by
  unfold parseNumber
  split <;> exact (ends_parseUnsigned _ _).bind fun _ _ => .ok

/-! ## Values -/

theorem length_skipWhitespace (t : Bytes) : (skipWhitespace t).length ≤ t.length :=
  (List.dropWhile_sublist _).length_le

/-- A value is something. -/
theorem length_parseValue {fuel : Nat} {t : Bytes} {a : List SaxEvent × Bytes} (h : parseValue δ fuel t = .ok a) :
    a.2.length < t.length := by
  obtain ⟨v, u, rfl, hu, -⟩ := (sound fuel).1 h
  obtain ⟨c, t, rfl, -⟩ := head_value (fun _ _ h => h) hu
  rw [List.length_append, List.length_cons]
  omega

theorem length_consume {c : UInt8} {t r : Bytes} (h : consume [c] t = some r) : r.length + 1 = t.length := by
  rw [consume_eq_some.mp h]
  rfl

section

variable (δ)

def EndsValue (fuel : Nat) : Prop := ∀ t : Bytes, 3 * t.length + 1 ≤ fuel → Ends (parseValue δ fuel t)

def EndsElements (fuel : Nat) : Prop :=
  ∀ (count : UInt32) (t : Bytes), 3 * t.length + 2 ≤ fuel → Ends (parseElements δ fuel count t)

def EndsMembers (fuel : Nat) : Prop :=
  ∀ (count : UInt32) (t : Bytes), 3 * t.length + 2 ≤ fuel → Ends (parseMembers δ fuel count t)

end

theorem ends_elements {fuel : Nat} (hvalue : EndsValue δ fuel) (helements : EndsElements δ fuel) :
    EndsElements δ (fuel + 1) := by
  intro count t hfuel
  refine (hvalue t (by omega)).bind fun a ha => ?_
  have hlen := length_parseValue ha
  have hskip := length_skipWhitespace a.2
  dsimp only
  split
  next => exact .error (by decide)
  next c t₁ ht₁ =>
    rw [ht₁, List.length_cons] at hskip
    have hskip₁ := length_skipWhitespace t₁
    split
    · exact (helements _ _ (by omega)).bind fun _ _ => .ok
    · split
      · exact .ok
      · exact .error (by decide)

theorem ends_members {fuel : Nat} (hvalue : EndsValue δ fuel) (hmembers : EndsMembers δ fuel) :
    EndsMembers δ (fuel + 1) := by
  intro count t hfuel
  simp only [parseMembers]
  split
  next => exact .error (by decide)
  next t₁ hquote =>
    have hlen₁ := length_consume hquote
    refine (ends_parseString t₁).bind fun a ha => ?_
    obtain ⟨n, hn, -⟩ := parseString_sound ha
    have hlen₂ : a.2.length ≤ t₁.length := by
      rw [hn, List.length_append]
      omega
    have hskip₂ := length_skipWhitespace a.2
    split
    next => exact .error (by decide)
    next t₃ hcolon =>
      have hlen₃ := length_consume hcolon
      have hskip₃ := length_skipWhitespace t₃
      refine (hvalue _ (by omega)).bind fun b hb => ?_
      have hlen₄ := length_parseValue hb
      have hskip₄ := length_skipWhitespace b.2
      split
      next => exact .error (by decide)
      next c t₅ ht₅ =>
        rw [ht₅, List.length_cons] at hskip₄
        have hskip₅ := length_skipWhitespace t₅
        split
        · exact (hmembers _ _ (by omega)).bind fun _ _ => .ok
        · split
          · exact .ok
          · exact .error (by decide)

theorem ends_array {fuel : Nat} (helements : EndsElements δ fuel) {t : Bytes} (hfuel : 3 * t.length + 2 ≤ fuel) :
    Ends (parseArray δ (fuel + 1) t) := by
  have hskip := length_skipWhitespace t
  simp only [parseArray]
  split
  · exact .ok
  · exact (helements _ _ (by omega)).bind fun _ _ => .ok

theorem ends_object {fuel : Nat} (hmembers : EndsMembers δ fuel) {t : Bytes} (hfuel : 3 * t.length + 2 ≤ fuel) :
    Ends (parseObject δ (fuel + 1) t) := by
  have hskip := length_skipWhitespace t
  simp only [parseObject]
  split
  · exact .ok
  · exact (hmembers _ _ (by omega)).bind fun _ _ => .ok

theorem ends_value {fuel : Nat} (hobject : ∀ t : Bytes, 3 * t.length + 3 ≤ fuel → Ends (parseObject δ fuel t))
    (harray : ∀ t : Bytes, 3 * t.length + 3 ≤ fuel → Ends (parseArray δ fuel t)) : EndsValue δ (fuel + 1) := by
  intro t hfuel
  cases t with
  | nil => exact ends_parseNumber []
  | cons c t =>
    have hfuel : 3 * t.length + 3 ≤ fuel := by
      rw [List.length_cons] at hfuel
      omega
    simp only [parseValue]
    split
    next => exact ends_parseWord _ _ _
    next =>
    split
    next => exact ends_parseWord _ _ _
    next =>
    split
    next => exact ends_parseWord _ _ _
    next =>
    split
    next => exact (ends_parseString t).bind fun _ _ => .ok
    next =>
    split
    next => exact hobject t hfuel
    next =>
    split
    next => exact harray t hfuel
    next => exact ends_parseNumber _

theorem ends (fuel : Nat) : EndsValue δ fuel ∧ EndsElements δ fuel ∧ EndsMembers δ fuel := by
  induction fuel using Nat.strong_induction_on with
  | _ fuel ih =>
    cases fuel with
    | zero => exact ⟨fun _ h => by omega, fun _ _ h => by omega, fun _ _ h => by omega⟩
    | succ fuel =>
      obtain ⟨hvalue, helements, hmembers⟩ := ih fuel (Nat.lt_succ_self fuel)
      refine ⟨ends_value (fun t ht => ?_) fun t ht => ?_, ends_elements hvalue helements, ends_members hvalue hmembers⟩
      · obtain ⟨fuel, rfl⟩ := Nat.exists_eq_add_one_of_ne_zero (show fuel ≠ 0 by omega)
        exact ends_object (ih fuel (by omega)).2.2 (by omega)
      · obtain ⟨fuel, rfl⟩ := Nat.exists_eq_add_one_of_ne_zero (show fuel ≠ 0 by omega)
        exact ends_array (ih fuel (by omega)).2.1 (by omega)

end Reader

/-- Doubles that are not rounded; the reader makes them of digits only. -/
instance : Doubles Nat where
  ofUint n := n
  push d digit := d * 10 + digit
  isHuge d := Nat.ble (17976931348623157 * 10 ^ 291) d
  isPos d := Nat.blt 0 d

/-- `1.0000000001e-2147483639`: `p` is `-2147483649`. -/
example : Reader.parse Nat (.ofBytes [0x31, 0x2E, 0x30, 0x30, 0x30, 0x30, 0x30, 0x30, 0x30, 0x30, 0x30, 0x31, 0x65,
    0x2D, 0x32, 0x31, 0x34, 0x37, 0x34, 0x38, 0x33, 0x36, 0x33, 0x39]) = .error .undefined := by
  decide +kernel

end EyPS
