/-
The grammar of JSON texts, as bytes, and the value each part of a text stands
for. A string is bytes between quotes: only quotes, backslashes and control
characters have to be escaped, nothing asks the rest to be UTF-8, and a lone
low surrogate after `\u` is a character like any other.

A closing bracket belongs to the part that ends with it (`Part.elements`,
`Part.members`), as the loops over elements and members read it.
-/
import EyPS.Rapidjson

namespace EyPS

namespace Ascii

abbrev quote : UInt8 := 34
abbrev plus : UInt8 := 43
abbrev comma : UInt8 := 44
abbrev minus : UInt8 := 45
abbrev point : UInt8 := 46
abbrev slash : UInt8 := 47
abbrev zero : UInt8 := 48
abbrev nine : UInt8 := 57
abbrev colon : UInt8 := 58
abbrev upperE : UInt8 := 69
abbrev openBracket : UInt8 := 91
abbrev backslash : UInt8 := 92
abbrev closeBracket : UInt8 := 93
abbrev lowerE : UInt8 := 101
abbrev lowerU : UInt8 := 117
abbrev openBrace : UInt8 := 123
abbrev closeBrace : UInt8 := 125

abbrev nullWord : Bytes := [110, 117, 108, 108]
abbrev trueWord : Bytes := [116, 114, 117, 101]
abbrev falseWord : Bytes := [102, 97, 108, 115, 101]

end Ascii

namespace JsonText

open Ascii

/-! ## Runs of one kind of byte -/

/-- The bytes do not begin with one of this kind. -/
def Stops (kind : UInt8 → Bool) : Bytes → Prop
  | [] => True
  | c :: _ => kind c = false

variable {kind : UInt8 → Bool}

/-- Where a run of bytes of one kind ends is determined. -/
theorem run_unique {a b r s : Bytes} (ha : ∀ c ∈ a, kind c = true) (hb : ∀ c ∈ b, kind c = true)
    (hr : Stops kind r) (hs : Stops kind s) (h : a ++ r = b ++ s) : a = b ∧ r = s := by
  induction a generalizing b with
  | nil =>
    cases b with
    | nil => exact ⟨rfl, h⟩
    | cons c b =>
      obtain rfl : r = c :: (b ++ s) := h
      have hc : kind c = true := hb c List.mem_cons_self
      simp [Stops, hc] at hr
  | cons c a ih =>
    have hc : kind c = true := ha c List.mem_cons_self
    cases b with
    | nil =>
      obtain rfl : s = c :: (a ++ r) := h.symm
      simp [Stops, hc] at hs
    | cons d b =>
      obtain ⟨rfl, htail⟩ := List.cons.inj h
      obtain ⟨rfl, rfl⟩ := ih (fun x hx => ha x (List.mem_cons_of_mem _ hx))
        (fun x hx => hb x (List.mem_cons_of_mem _ hx)) htail
      exact ⟨rfl, rfl⟩

/-- A run of this kind lies within the whole run. -/
theorem run_within {a b r s : Bytes} (ha : ∀ c ∈ a, kind c = true) (hr : Stops kind r) (h : a ++ s = b ++ r) :
    ∃ e, b = a ++ e := by
  rcases List.append_eq_append_iff.mp h with ⟨e, rfl, -⟩ | ⟨e, rfl, rfl⟩
  · exact ⟨e, rfl⟩
  · cases e with
    | nil => exact ⟨[], by simp⟩
    | cons c e =>
      have hc : kind c = true := ha c (by simp)
      simp [Stops, hc] at hr

/-! ## White space -/

def isSpace (c : UInt8) : Bool := c = 32 || c = 10 || c = 13 || c = 9

theorem isSpace_iff {c : UInt8} : isSpace c = true ↔ c = 32 ∨ c = 10 ∨ c = 13 ∨ c = 9 := by
  simp [isSpace, or_assoc]

/-- Nothing but white space. -/
def Space (w : Bytes) : Prop := ∀ c ∈ w, isSpace c = true

theorem Space.nil : Space [] := List.forall_mem_nil _

/-! ## Numbers -/

def isDigit (c : UInt8) : Bool := zero ≤ c && c ≤ nine

theorem isDigit_iff {c : UInt8} : isDigit c = true ↔ 48 ≤ c.toNat ∧ c.toNat ≤ 57 := by
  rw [isDigit, Bool.and_eq_true, decide_eq_true_eq, decide_eq_true_eq, UInt8.le_iff_toNat_le, UInt8.le_iff_toNat_le]
  rfl

def Digits (ds : Bytes) : Prop := ∀ c ∈ ds, isDigit c = true

theorem Digits.nil : Digits [] := List.forall_mem_nil _

/-- A number with one more digit. -/
@[irreducible] def pushDigit (i : Nat) (c : UInt8) : Nat := i * 10 + (c.toNat - 48)

theorem le_pushDigit (i : Nat) (c : UInt8) : i ≤ pushDigit i c := by
  unfold pushDigit
  omega

/-- The number these digits continue to, from `i` on. -/
def decimal (i : Nat) (ds : Bytes) : Nat := ds.foldl pushDigit i

@[simp] theorem decimal_nil (i : Nat) : decimal i [] = i := rfl

@[simp] theorem decimal_cons (i : Nat) (c : UInt8) (ds : Bytes) : decimal i (c :: ds) = decimal (pushDigit i c) ds :=
  rfl

theorem decimal_append (i : Nat) (a b : Bytes) : decimal i (a ++ b) = decimal (decimal i a) b := List.foldl_append

theorem decimal_zero : decimal 0 [zero] = 0 := by decide +kernel

/-- Digits do not make a number smaller. -/
theorem le_decimal (i : Nat) (ds : Bytes) : i ≤ decimal i ds := by
  induction ds generalizing i with
  | nil => exact Nat.le_refl i
  | cons c ds ih => exact Nat.le_trans (le_pushDigit i c) (ih _)

/-- `zero / ( digit1-9 *DIGIT )`. -/
inductive IntText : Bytes → Prop
  | zero : IntText [zero]
  | digits {c : UInt8} {ds : Bytes} (hc : isDigit c = true) (hne : c ≠ Ascii.zero) (hds : Digits ds) :
    IntText (c :: ds)

/-- `decimal-point 1*DIGIT`, or nothing. -/
inductive FracText : Bytes → Prop
  | none : FracText []
  | some {c : UInt8} {ds : Bytes} (hds : Digits (c :: ds)) : FracText (point :: c :: ds)

/-- `e [ minus / plus ] 1*DIGIT`, or nothing. -/
inductive ExpText : Bytes → Prop
  | none : ExpText []
  | some {e : UInt8} {sign : Bytes} {c : UInt8} {ds : Bytes} (he : e = lowerE ∨ e = upperE)
    (hsign : sign = [] ∨ sign = [plus] ∨ sign = [minus]) (hds : Digits (c :: ds)) :
    ExpText (e :: (sign ++ c :: ds))

/-- The sign before a number. -/
def sign : Bool → Bytes
  | true => [minus]
  | false => []

/-- The sign applied. -/
def signed (neg : Bool) (n : Nat) : Int := if neg then -(n : Int) else n

end JsonText

/-- A number that `GetInt` takes, or one it does not. -/
def Json.ofInt (n : Int) : Json := if -2 ^ 31 ≤ n ∧ n < 2 ^ 31 then .int (Int32.ofInt n) else .number

theorem Json.ofInt_cases (n : Int) : (∃ i, Json.ofInt n = .int i) ∨ Json.ofInt n = .number := by
  unfold Json.ofInt
  split
  · exact .inl ⟨_, rfl⟩
  · exact .inr rfl

theorem Json.ofInt_ne_string (n : Int) (s : Bytes) : Json.ofInt n ≠ .string s := by
  rcases Json.ofInt_cases n with ⟨i, h⟩ | h <;> simp [h]

namespace JsonText

open Ascii

/-- `[ minus ] int [ frac ] [ exp ]`; with a fraction or an exponent it is no `int`. -/
inductive NumberText : Json → Bytes → Prop
  | integer {neg : Bool} {ds : Bytes} (hds : IntText ds) :
    NumberText (.ofInt (signed neg (decimal 0 ds))) (sign neg ++ ds)
  | double {neg : Bool} {ds f x : Bytes} (hds : IntText ds) (hf : FracText f) (hx : ExpText x)
    (hfx : f ≠ [] ∨ x ≠ []) : NumberText .number (sign neg ++ (ds ++ (f ++ x)))

theorem NumberText.int_or_number {v : Json} {u : Bytes} (h : NumberText v u) : (∃ i, v = .int i) ∨ v = .number := by
  cases h with
  | integer => exact Json.ofInt_cases _
  | double => exact .inr rfl

/-- The size of a negative exponent. -/
def negExp : Bytes → Nat
  | _ :: c :: ds => if c = minus then decimal 0 ds else 0
  | _ => 0

/-- A fraction and an exponent which make a power of ten that an `int` holds, and do
so on the way there. -/
def Moderate (f x : Bytes) : Prop := f.length < 2 ^ 27 ∧ f.length + negExp x ≤ 2 ^ 31

/-- A number with such a power of ten. -/
inductive ModerateNumber : Json → Bytes → Prop
  | integer {neg : Bool} {ds : Bytes} (hds : IntText ds) :
    ModerateNumber (.ofInt (signed neg (decimal 0 ds))) (sign neg ++ ds)
  | double {neg : Bool} {ds f x : Bytes} (hds : IntText ds) (hf : FracText f) (hx : ExpText x)
    (hfx : f ≠ [] ∨ x ≠ []) (hmoderate : Moderate f x) : ModerateNumber .number (sign neg ++ (ds ++ (f ++ x)))

theorem ModerateNumber.numberText {v : Json} {u : Bytes} (h : ModerateNumber v u) : NumberText v u := by
  cases h with
  | integer hds => exact .integer hds
  | double hds hf hx hfx => exact .double hds hf hx hfx

/-! ## Strings -/

/-- The byte that a backslash and this byte stand for. -/
def escape (e : UInt8) : Option UInt8 :=
  if e = quote then some quote
  else if e = slash then some slash
  else if e = backslash then some backslash
  else if e = 98 then some 8
  else if e = 102 then some 12
  else if e = 110 then some 10
  else if e = 114 then some 13
  else if e = 116 then some 9
  else none

def hexDigit (c : UInt8) : Option Nat :=
  if zero ≤ c ∧ c ≤ nine then some (c.toNat - 48)
  else if 65 ≤ c ∧ c ≤ 70 then some (c.toNat - 65 + 10)
  else if 97 ≤ c ∧ c ≤ 102 then some (c.toNat - 97 + 10)
  else none

/-- The number these hexadecimal digits continue to, from `codepoint` on. -/
def hex (codepoint : Nat) : Bytes → Option Nat
  | [] => some codepoint
  | c :: ds =>
    match hexDigit c with
    | some d => hex (codepoint * 16 + d) ds
    | none => none

/-- Four hexadecimal digits. -/
def Hex4 (codepoint : Nat) (ds : Bytes) : Prop := ds.length = 4 ∧ hex 0 ds = some codepoint

def IsLead (codepoint : Nat) : Prop := 0xD800 ≤ codepoint ∧ codepoint ≤ 0xDBFF

def IsTrail (codepoint : Nat) : Prop := 0xDC00 ≤ codepoint ∧ codepoint ≤ 0xDFFF

instance (codepoint : Nat) : Decidable (IsLead codepoint) := inferInstanceAs (Decidable (_ ∧ _))

instance (codepoint : Nat) : Decidable (IsTrail codepoint) := inferInstanceAs (Decidable (_ ∧ _))

/-- `UTF8::Encode`. -/
def utf8 (codepoint : Nat) : Bytes :=
  let put (n : Nat) : UInt8 := UInt8.ofNat n
  if codepoint ≤ 0x7F then [put codepoint]
  else if codepoint ≤ 0x7FF then [put (0xC0 ||| codepoint >>> 6), put (0x80 ||| codepoint &&& 0x3F)]
  else if codepoint ≤ 0xFFFF then
    [put (0xE0 ||| codepoint >>> 12), put (0x80 ||| codepoint >>> 6 &&& 0x3F), put (0x80 ||| codepoint &&& 0x3F)]
  else
    [put (0xF0 ||| codepoint >>> 18), put (0x80 ||| codepoint >>> 12 &&& 0x3F),
      put (0x80 ||| codepoint >>> 6 &&& 0x3F), put (0x80 ||| codepoint &&& 0x3F)]

/-- The code point of a surrogate pair. -/
def surrogates (lead trail : Nat) : Nat := ((lead - 0xD800) <<< 10 ||| (trail - 0xDC00)) + 0x10000

/-- What follows a backslash, and the bytes it stands for. -/
inductive EscapeText : Bytes → Bytes → Prop
  | char {e x : UInt8} (he : escape e = some x) : EscapeText [x] [e]
  | unicode {cp : Nat} {ds : Bytes} (hds : Hex4 cp ds) (hcp : ¬ IsLead cp) : EscapeText (utf8 cp) (lowerU :: ds)
  | pair {lead trail : Nat} {ds ds' : Bytes} (hds : Hex4 lead ds) (hlead : IsLead lead) (hds' : Hex4 trail ds')
    (htrail : IsTrail trail) :
    EscapeText (utf8 (surrogates lead trail)) (lowerU :: (ds ++ backslash :: lowerU :: ds'))

theorem length_utf8 (codepoint : Nat) : (utf8 codepoint).length ≤ 4 := by
  unfold utf8
  dsimp only
  split
  · simp
  split
  · simp
  split <;> simp

/-- An escape is no shorter than what it stands for. -/
theorem EscapeText.length_le {x e : Bytes} (h : EscapeText x e) : x.length ≤ e.length := by
  cases h with
  | char => exact Nat.le_refl 1
  | @unicode cp ds hds =>
    have hlen := length_utf8 cp
    rw [List.length_cons, hds.1]
    omega
  | @pair lead trail ds ds' hds _ hds' =>
    have hlen := length_utf8 (surrogates lead trail)
    rw [List.length_cons, List.length_append, hds.1]
    omega

/-- A byte that stands for itself. -/
def Plain (c : UInt8) : Prop := 0x20 ≤ c ∧ c ≠ quote ∧ c ≠ backslash

instance (c : UInt8) : Decidable (Plain c) := inferInstanceAs (Decidable (_ ∧ _))

/-- The text of a string after the opening quote, and the string. -/
inductive StringText : Bytes → Bytes → Prop
  | close : StringText [] [quote]
  | plain {c : UInt8} {s u : Bytes} (hc : Plain c) (h : StringText s u) : StringText (c :: s) (c :: u)
  | escape {x e s u : Bytes} (he : EscapeText x e) (h : StringText s u) :
    StringText (x ++ s) (backslash :: (e ++ u))

theorem StringText.length_le {s u : Bytes} (h : StringText s u) : s.length ≤ u.length := by
  induction h with
  | close => exact Nat.zero_le 1
  | plain _ _ ih => exact Nat.succ_le_succ ih
  | escape he _ ih =>
    have hlen := he.length_le
    rw [List.length_append, List.length_cons, List.length_append]
    omega

/-! ## Values -/

inductive Part
  | value (v : Json)
  /-- what is left of an array after its first elements -/
  | elements (vs : List Json)
  | members (ms : List (Bytes × Json))

/-- The part and its text, in which these are the numbers. -/
inductive Denotes (number : Json → Bytes → Prop) : Part → Bytes → Prop
  | null : Denotes number (.value .null) nullWord
  | true : Denotes number (.value (.bool true)) trueWord
  | false : Denotes number (.value (.bool false)) falseWord
  | number {v : Json} {u : Bytes} (h : number v u) : Denotes number (.value v) u
  | string {s u : Bytes} (h : StringText s u) : Denotes number (.value (.string s)) (quote :: u)
  | emptyArray {w : Bytes} (hw : Space w) : Denotes number (.value (.array [])) (openBracket :: (w ++ [closeBracket]))
  | array {vs : List Json} {w u : Bytes} (hw : Space w) (h : Denotes number (.elements vs) u) :
    Denotes number (.value (.array vs)) (openBracket :: (w ++ u))
  | lastElement {v : Json} {u w : Bytes} (h : Denotes number (.value v) u) (hw : Space w) :
    Denotes number (.elements [v]) (u ++ (w ++ [closeBracket]))
  | element {v : Json} {vs : List Json} {u w w' us : Bytes} (h : Denotes number (.value v) u) (hw : Space w)
    (hw' : Space w') (hs : Denotes number (.elements vs) us) :
    Denotes number (.elements (v :: vs)) (u ++ (w ++ comma :: (w' ++ us)))
  | emptyObject {w : Bytes} (hw : Space w) : Denotes number (.value (.object [])) (openBrace :: (w ++ [closeBrace]))
  | object {ms : List (Bytes × Json)} {w u : Bytes} (hw : Space w) (h : Denotes number (.members ms) u) :
    Denotes number (.value (.object ms)) (openBrace :: (w ++ u))
  | lastMember {s n w₁ w₂ : Bytes} {v : Json} {u w : Bytes} (hn : StringText s n) (hw₁ : Space w₁) (hw₂ : Space w₂)
    (h : Denotes number (.value v) u) (hw : Space w) :
    Denotes number (.members [(s, v)]) (quote :: (n ++ (w₁ ++ colon :: (w₂ ++ (u ++ (w ++ [closeBrace]))))))
  | member {s n w₁ w₂ : Bytes} {v : Json} {u w w' : Bytes} {ms : List (Bytes × Json)} {us : Bytes}
    (hn : StringText s n) (hw₁ : Space w₁) (hw₂ : Space w₂) (h : Denotes number (.value v) u) (hw : Space w)
    (hw' : Space w') (hs : Denotes number (.members ms) us) :
    Denotes number (.members ((s, v) :: ms))
      (quote :: (n ++ (w₁ ++ colon :: (w₂ ++ (u ++ (w ++ comma :: (w' ++ us)))))))

/-- The elements or members of a part. -/
def Part.size : Part → Nat
  | .value _ => 0
  | .elements vs => vs.length
  | .members ms => ms.length

/-- Each takes a byte. -/
theorem Denotes.size_le {number : Json → Bytes → Prop} {p : Part} {u : Bytes} (h : Denotes number p u) :
    p.size ≤ u.length := by
  induction h with
  | null | true | false | number | string | emptyArray | array | emptyObject | object => exact Nat.zero_le _
  | lastElement | lastMember =>
    simp only [Part.size, List.length_cons, List.length_append]
    omega
  | element _ _ _ _ _ ihs | member _ _ _ _ _ _ _ _ ihs =>
    simp only [Part.size, List.length_cons, List.length_append] at ihs ⊢
    omega

/-- The part is this string, or one of its members is. -/
def Part.Holds (s : Bytes) : Part → Prop
  | .value v => v = .string s
  | .elements _ => False
  | .members ms => ∃ n, (n, Json.string s) ∈ ms

/-- A string is no longer than the text it is in. -/
theorem Denotes.holds_le {p : Part} {u s : Bytes} (h : Denotes NumberText p u) (hs : p.Holds s) :
    s.length ≤ u.length := by
  induction h with
  | null | true | false | emptyArray | array | emptyObject | object => cases hs
  | number h =>
    rcases h.int_or_number with ⟨i, rfl⟩ | rfl <;> cases hs
  | string h =>
    cases hs
    exact Nat.le_succ_of_le h.length_le
  | lastElement | element => exact hs.elim
  | lastMember _ _ _ _ _ ih =>
    obtain ⟨n, hn⟩ := hs
    have hle := ih (Prod.mk.inj (List.mem_singleton.mp hn)).2.symm
    simp only [List.length_cons, List.length_append]
    omega
  | member _ _ _ _ _ _ _ ih ihs =>
    obtain ⟨n, hn⟩ := hs
    simp only [List.length_cons, List.length_append]
    rcases List.mem_cons.mp hn with hn | hn
    · have hle := ih (Prod.mk.inj hn).2.symm
      omega
    · have hle := ihs ⟨n, hn⟩
      omega

/-- The text of a value, in white space. -/
def IsText (number : Json → Bytes → Prop) (v : Json) (text : Bytes) : Prop :=
  ∃ w u w', text = w ++ (u ++ w') ∧ Space w ∧ Denotes number (.value v) u ∧ Space w'

/-- A string member of the document is no longer than its text. -/
theorem IsText.member_le {ms : List (Bytes × Json)} {text n s : Bytes} (h : IsText NumberText (.object ms) text)
    (hs : (n, .string s) ∈ ms) : s.length ≤ text.length := by
  obtain ⟨w, u, w', rfl, -, hdenotes, -⟩ := h
  have hle : s.length ≤ u.length := by
    generalize hv : Json.object ms = v at hdenotes
    cases hdenotes with
    | number h => rcases h.int_or_number with ⟨i, rfl⟩ | rfl <;> cases hv
    | emptyObject =>
      cases hv
      cases hs
    | object _ h =>
      cases hv
      have hmember := h.holds_le ⟨n, hs⟩
      simp only [List.length_cons, List.length_append]
      omega
    | null | true | false | string | emptyArray | array => cases hv
  simp only [List.length_append]
  omega

end JsonText

end EyPS
