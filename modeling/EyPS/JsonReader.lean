/-
`rapidjson/reader.h` and the handler of `rapidjson/document.h`, at the default
flags, for UTF-8 on both sides and a 64-bit build: what `Document::Parse` makes
of a C string.

A parse function takes what is left of the text and gives the events it sends
to the handler and what is left after it. The recursion of `ParseValue` is
bounded by `fuel` here; `parse` gives it enough for any text, so that it never
ends in a `termination` for lack of it. The C++ stack and memory are not
modelled.

Doubles are a parameter (`Doubles`): only what decides the course of
`ParseNumber` is asked of them, and the double that is read is not kept. Its
`int`s are, as far as they can overflow: the power of ten that is looked up
for a double ends the program where it did.
-/
import EyPS.JsonText

namespace EyPS

inductive ParseErrorCode
  | documentEmpty
  | documentRootNotSingular
  | valueInvalid
  | objectMissName
  | objectMissColon
  | objectMissCommaOrCurlyBracket
  | arrayMissCommaOrSquareBracket
  | stringUnicodeEscapeInvalidHex
  | stringUnicodeSurrogateInvalid
  | stringEscapeInvalid
  | stringMissQuotationMark
  | numberTooBig
  | numberMissFraction
  | numberMissExponent
  | termination
  /-- No code of the source: an `int` overflows in `ParseNumber`, or `Pow10`'s assertion
  fails. -/
  | undefined
  deriving DecidableEq

/-- The calls of a handler. -/
inductive SaxEvent
  | null
  | bool (b : Bool)
  | int (i : Int32)
  | uint (i : UInt32)
  | int64 (i : Int64)
  | uint64 (i : UInt64)
  | double
  | string (str : Bytes)
  | startObject
  | key (str : Bytes)
  | endObject (memberCount : UInt32)
  | startArray
  | endArray (elementCount : UInt32)
  deriving DecidableEq

/-- Doubles, as far as `ParseNumber` looks at them. -/
class Doubles (δ : Type) where
  /-- `static_cast<double>(i64)` -/
  ofUint : Nat → δ
  /-- `d * 10 + digit` -/
  push : δ → Nat → δ
  /-- `d >= 1.7976931348623157e307` -/
  isHuge : δ → Bool
  /-- `d > 0.0` -/
  isPos : δ → Bool

namespace Reader

open Ascii JsonText

def skipWhitespace (t : Bytes) : Bytes := t.dropWhile isSpace

/-! ## Words -/

/-- `Consume` of one character after the other. -/
def consume : Bytes → Bytes → Option Bytes
  | [], t => some t
  | _ :: _, [] => none
  | c :: word, d :: t => if d = c then consume word t else none

/-- A word, of which the first character has been taken. -/
def parseWord (word : Bytes) (event : SaxEvent) (t : Bytes) : Except ParseErrorCode (List SaxEvent × Bytes) :=
  match consume word t with
  | some t => .ok ([event], t)
  | none => .error .valueInvalid

def parseNull : Bytes → Except ParseErrorCode (List SaxEvent × Bytes) := parseWord [117, 108, 108] .null

def parseTrue : Bytes → Except ParseErrorCode (List SaxEvent × Bytes) := parseWord [114, 117, 101] (.bool true)

def parseFalse : Bytes → Except ParseErrorCode (List SaxEvent × Bytes) :=
  parseWord [97, 108, 115, 101] (.bool false)

/-! ## Strings -/

/-- The loop of `ParseHex4`, `n` rounds from its end. -/
def parseHex : Nat → Nat → Bytes → Except ParseErrorCode (Nat × Bytes)
  | 0, codepoint, t => .ok (codepoint, t)
  | _ + 1, _, [] => .error .stringUnicodeEscapeInvalidHex
  | n + 1, codepoint, c :: t =>
    match hexDigit c with
    | some d => parseHex n (codepoint * 16 + d) t
    | none => .error .stringUnicodeEscapeInvalidHex

def parseHex4 (t : Bytes) : Except ParseErrorCode (Nat × Bytes) := parseHex 4 0 t

/-- What `ParseStringToStream` puts for what follows a backslash. -/
def parseEscape : Bytes → Except ParseErrorCode (Bytes × Bytes)
  | [] => .error .stringEscapeInvalid
  | e :: t =>
    match escape e with
    | some x => .ok ([x], t)
    | none =>
      if e = lowerU then do
        let (codepoint, t) ← parseHex4 t
        if IsLead codepoint then
          match consume [backslash, lowerU] t with
          | none => .error .stringUnicodeSurrogateInvalid
          | some t => do
            let (codepoint2, t) ← parseHex4 t
            if IsTrail codepoint2 then return (utf8 (surrogates codepoint codepoint2), t)
            else .error .stringUnicodeSurrogateInvalid
        else return (utf8 codepoint, t)
      else .error .stringEscapeInvalid

/-- `ParseStringToStream`, after the opening quote. -/
def parseStringToStream : Nat → Bytes → Except ParseErrorCode (Bytes × Bytes)
  | 0, _ => .error .termination
  | _ + 1, [] => .error .stringMissQuotationMark
  | fuel + 1, c :: t =>
    if c = backslash then do
      let (x, t) ← parseEscape t
      let (str, t) ← parseStringToStream fuel t
      return (x ++ str, t)
    else if c = quote then return ([], t)
    else if c < 0x20 then
      if c = 0 then .error .stringMissQuotationMark else .error .stringEscapeInvalid
    else do
      let (str, t) ← parseStringToStream fuel t
      return (c :: str, t)

def parseString (t : Bytes) : Except ParseErrorCode (Bytes × Bytes) := parseStringToStream (t.length + 1) t

/-! ## Numbers -/

section Number

variable {δ : Type} [Doubles δ]

/-- The number read so far: in `i`, in `i64` or in `d`. -/
inductive Significand (δ : Type)
  | uint (i : Nat)
  | uint64 (i64 : Nat)
  | double (d : δ)

structure Taken where
  value : Nat
  significandDigit : Nat
  /-- the next digit does not fit -/
  full : Bool
  rest : Bytes

/-- The loops over the digits of `i` and of `i64`: as long as the number stays at
most `limit`, followed by the digit `last`. -/
def takeDigits (limit : Nat) (last : UInt8) (i significandDigit : Nat) : Bytes → Taken
  | [] => ⟨i, significandDigit, false, []⟩
  | c :: t =>
    if isDigit c then
      if limit ≤ i ∧ (i ≠ limit ∨ last < c) then ⟨i, significandDigit, true, c :: t⟩
      else takeDigits limit last (pushDigit i c) (significandDigit + 1) t
    else ⟨i, significandDigit, false, c :: t⟩

/-- The digits of a big integer. -/
def takeBig (d : δ) : Bytes → Except ParseErrorCode (δ × Bytes)
  | [] => .ok (d, [])
  | c :: t =>
    if isDigit c then
      if Doubles.isHuge d then .error .numberTooBig else takeBig (Doubles.push d (c.toNat - 48)) t
    else .ok (d, c :: t)

/-- The integer part. -/
def parseInt (minus : Bool) : Bytes → Except ParseErrorCode (Significand δ × Nat × Bytes)
  | [] => .error .valueInvalid
  | c :: t =>
    if c = zero then .ok (.uint 0, 0, t)
    else if isDigit c then
      let last : UInt8 := if minus then 56 else 53
      let i := takeDigits (if minus then 214748364 else 429496729) last (c.toNat - 48) 0 t
      if i.full then
        let i64 := takeDigits (if minus then 0x0CCCCCCCCCCCCCCC else 0x1999999999999999) last i.value
          i.significandDigit i.rest
        if i64.full then do
          let (d, t) ← takeBig (Doubles.ofUint i64.value : δ) i64.rest
          return (.double d, i64.significandDigit, t)
        else .ok (.uint64 i64.value, i64.significandDigit, i64.rest)
      else .ok (.uint i.value, i.significandDigit, i.rest)
    else .error .valueInvalid

structure Fraction (δ : Type) where
  d : δ
  /-- `-expFrac` -/
  places : Nat
  significandDigit : Nat
  rest : Bytes

/-- The digits after the point that `i64` takes. -/
def takeFraction64 (i64 places significandDigit : Nat) : Bytes → Fraction Nat
  | [] => ⟨i64, places, significandDigit, []⟩
  | c :: t =>
    if isDigit c ∧ i64 ≤ 0x1FFFFFFFFFFFFF then
      let i64 := pushDigit i64 c
      takeFraction64 i64 (places + 1) (if i64 ≠ 0 then significandDigit + 1 else significandDigit) t
    else ⟨i64, places, significandDigit, c :: t⟩

/-- Those that `d` takes, the digits after 17 significant ones being skipped. -/
def takeFraction (d : δ) (places significandDigit : Nat) : Bytes → Fraction δ
  | [] => ⟨d, places, significandDigit, []⟩
  | c :: t =>
    if isDigit c then
      if significandDigit < 17 then
        let d := Doubles.push d (c.toNat - 48)
        takeFraction d (places + 1) (if Doubles.isPos d then significandDigit + 1 else significandDigit) t
      else takeFraction d places significandDigit t
    else ⟨d, places, significandDigit, c :: t⟩

/-- The next character is a digit. -/
def startsDigit : Bytes → Bool
  | [] => false
  | c :: _ => isDigit c

/-- The fraction: whether the number is a double after it, and `-expFrac`. -/
def parseFrac (significand : Significand δ) (significandDigit : Nat) (t : Bytes) :
    Except ParseErrorCode (Bool × Nat × Bytes) :=
  match consume [point] t with
  | some t =>
    if startsDigit t then
      let f : Fraction δ :=
        match significand with
        | .uint i | .uint64 i =>
          let f := takeFraction64 i 0 significandDigit t
          ⟨Doubles.ofUint f.d, f.places, f.significandDigit, f.rest⟩
        | .double d => ⟨d, 0, significandDigit, t⟩
      let f := takeFraction f.d f.places f.significandDigit f.rest
      if 2 ^ 31 < f.places then .error .undefined else .ok (true, f.places, f.rest)
    else .error .numberMissFraction
  | none => .ok (false, 0, t)

/-- The digits of a negative exponent; after `214748364` they no longer count. -/
def takeNegExp (exp : Nat) : Bytes → Nat × Bytes
  | [] => (exp, [])
  | c :: t =>
    if isDigit c then
      let exp := pushDigit exp c
      if 214748364 ≤ exp then (exp, t.dropWhile isDigit) else takeNegExp exp t
    else (exp, c :: t)

/-- The digits of a positive exponent. -/
def takeExp (maxExp exp : Nat) : Bytes → Except ParseErrorCode (Nat × Bytes)
  | [] => .ok (exp, [])
  | c :: t =>
    if isDigit c then
      let exp := pushDigit exp c
      if 2 ^ 31 ≤ exp then .error .undefined
      else if maxExp < exp then .error .numberTooBig
      else takeExp maxExp exp t
    else .ok (exp, c :: t)

/-- The exponent, after the `e`. -/
def parseExpDigits (places : Nat) (expMinus : Bool) : Bytes → Except ParseErrorCode (Option Int × Bytes)
  | [] => .error .numberMissExponent
  | c :: t =>
    if isDigit c then
      if expMinus then
        let taken := takeNegExp (c.toNat - 48) t
        .ok (some (-taken.1), taken.2)
      else if 2 ^ 31 ≤ 308 + places then .error .undefined
      else (takeExp (308 + places) (c.toNat - 48) t).map fun taken => (some taken.1, taken.2)
    else .error .numberMissExponent

/-- The exponent, if there is one. -/
def parseExp (places : Nat) : Bytes → Except ParseErrorCode (Option Int × Bytes)
  | [] => .ok (none, [])
  | c :: t =>
    if c = lowerE ∨ c = upperE then
      match consume [plus] t with
      | some t => parseExpDigits places false t
      | none =>
        match consume [minus] t with
        | some t => parseExpDigits places true t
        | none => parseExpDigits places false t
    else .ok (none, c :: t)

/-- `Pow10`: whether its assertion holds. -/
def pow10 (n : Int) : Bool := 0 ≤ n && n ≤ 308

/-- `FastPath`, the same. -/
def fastPath (exp : Int) : Bool :=
  if exp < -308 then true else if 0 ≤ exp then pow10 exp else pow10 (-exp)

/-- `StrtodNormalPrecision`, the same. -/
def strtodNormalPrecision (p : Int) : Bool :=
  if p < -308 then fastPath (-308) && fastPath (p + 308) else fastPath p

/-- The event of a double, `p` being the `int` for `exp + expFrac`. -/
def doubleEvent (p : Int) : Except ParseErrorCode SaxEvent :=
  if -2 ^ 31 ≤ p ∧ strtodNormalPrecision p = true then .ok .double else .error .undefined

/-- The event of an integer. -/
def integerEvent (minus : Bool) : Significand δ → SaxEvent
  | .uint i => if minus then .int (Int32.ofInt (-(i : Int))) else .uint (UInt32.ofNat i)
  | .uint64 i64 => if minus then .int64 (Int64.ofInt (-(i64 : Int))) else .uint64 (UInt64.ofNat i64)
  | .double _ => .double

/-- `ParseNumber`, after the sign. -/
def parseUnsigned (δ : Type) [Doubles δ] (minus : Bool) (t : Bytes) : Except ParseErrorCode (SaxEvent × Bytes) := do
  let (significand, significandDigit, t) ← parseInt (δ := δ) minus t
  let (frac, places, t) ← parseFrac significand significandDigit t
  let (exp, t) ← parseExp places t
  if frac || exp.isSome then do
    let event ← doubleEvent (exp.getD 0 - places)
    return (event, t)
  else return (integerEvent minus significand, t)

def parseNumber (δ : Type) [Doubles δ] (t : Bytes) : Except ParseErrorCode (List SaxEvent × Bytes) := do
  let (event, t) ←
    match consume [minus] t with
    | some t => parseUnsigned δ true t
    | none => parseUnsigned δ false t
  return ([event], t)

end Number

/-! ## Values -/

section Value

variable (δ : Type) [Doubles δ]

mutual

def parseValue (fuel : Nat) (t : Bytes) : Except ParseErrorCode (List SaxEvent × Bytes) :=
  match fuel with
  | 0 => .error .termination
  | fuel + 1 =>
    match t with
    | [] => parseNumber δ []
    | c :: t =>
      if c = 110 then parseNull t
      else if c = 116 then parseTrue t
      else if c = 102 then parseFalse t
      else if c = quote then do
        let (str, t) ← parseString t
        return ([.string str], t)
      else if c = openBrace then parseObject fuel t
      else if c = openBracket then parseArray fuel t
      else parseNumber δ (c :: t)

/-- After the brace. -/
def parseObject (fuel : Nat) (t : Bytes) : Except ParseErrorCode (List SaxEvent × Bytes) :=
  match fuel with
  | 0 => .error .termination
  | fuel + 1 =>
    match consume [closeBrace] (skipWhitespace t) with
    | some t => .ok ([.startObject, .endObject 0], t)
    | none => do
      let (events, t) ← parseMembers fuel 0 (skipWhitespace t)
      return (.startObject :: events, t)

/-- The loop of `ParseObject`. -/
def parseMembers (fuel : Nat) (memberCount : UInt32) (t : Bytes) : Except ParseErrorCode (List SaxEvent × Bytes) :=
  match fuel with
  | 0 => .error .termination
  | fuel + 1 =>
    match consume [quote] t with
    | none => .error .objectMissName
    | some t => do
      let (str, t) ← parseString t
      match consume [colon] (skipWhitespace t) with
      | none => .error .objectMissColon
      | some t => do
        let (events, t) ← parseValue fuel (skipWhitespace t)
        match skipWhitespace t with
        | [] => .error .objectMissCommaOrCurlyBracket
        | c :: t =>
          if c = comma then do
            let (more, t) ← parseMembers fuel (memberCount + 1) (skipWhitespace t)
            return (.key str :: (events ++ more), t)
          else if c = closeBrace then return (.key str :: (events ++ [.endObject (memberCount + 1)]), t)
          else .error .objectMissCommaOrCurlyBracket

/-- After the bracket. -/
def parseArray (fuel : Nat) (t : Bytes) : Except ParseErrorCode (List SaxEvent × Bytes) :=
  match fuel with
  | 0 => .error .termination
  | fuel + 1 =>
    match consume [closeBracket] (skipWhitespace t) with
    | some t => .ok ([.startArray, .endArray 0], t)
    | none => do
      let (events, t) ← parseElements fuel 0 (skipWhitespace t)
      return (.startArray :: events, t)

/-- The loop of `ParseArray`. -/
def parseElements (fuel : Nat) (elementCount : UInt32) (t : Bytes) : Except ParseErrorCode (List SaxEvent × Bytes) :=
  match fuel with
  | 0 => .error .termination
  | fuel + 1 => do
    let (events, t) ← parseValue fuel t
    match skipWhitespace t with
    | [] => .error .arrayMissCommaOrSquareBracket
    | c :: t =>
      if c = comma then do
        let (more, t) ← parseElements fuel (elementCount + 1) (skipWhitespace t)
        return (events ++ more, t)
      else if c = closeBracket then return (events ++ [.endArray (elementCount + 1)], t)
      else .error .arrayMissCommaOrSquareBracket

end

/-- `Parse`: the events of a whole text. -/
def parse (text : CStr) : Except ParseErrorCode (List SaxEvent) :=
  match skipWhitespace text.bytes with
  | [] => .error .documentEmpty
  | t => do
    let (events, t) ← parseValue δ (3 * t.length + 1) t
    if skipWhitespace t = [] then return events else .error .documentRootNotSingular

end Value

end Reader

namespace Document

/-- The values a document's stack ends with, as the members of an object. -/
def membersOf : List Json → Option (List (Bytes × Json))
  | [] => some []
  | .string name :: value :: rest => (membersOf rest).map ((name, value) :: ·)
  | _ => none

/-- The handler: what an event makes of the stack, its top first. -/
def event (stack : List Json) : SaxEvent → Option (List Json)
  | .null => some (.null :: stack)
  | .bool b => some (.bool b :: stack)
  | .int i => some (.ofInt i.toInt :: stack)
  | .uint i => some (.ofInt i.toNat :: stack)
  | .int64 i => some (.ofInt i.toInt :: stack)
  | .uint64 i => some (.ofInt i.toNat :: stack)
  | .double => some (.number :: stack)
  | .string str | .key str => some (.string str :: stack)
  | .startObject => some (.object [] :: stack)
  | .endObject memberCount =>
    match stack.drop (2 * memberCount.toNat) with
    | [] => none
    | _ :: rest =>
      (membersOf (stack.take (2 * memberCount.toNat)).reverse).map fun members => .object members :: rest
  | .startArray => some (.array [] :: stack)
  | .endArray elementCount =>
    match stack.drop elementCount.toNat with
    | [] => none
    | _ :: rest => some (.array (stack.take elementCount.toNat).reverse :: rest)

def events (stack : List Json) : List SaxEvent → Option (List Json)
  | [] => some stack
  | e :: es =>
    match event stack e with
    | some stack => events stack es
    | none => none

/-- `Document::Parse`; `none` is the null document that an error leaves. (Where the
reader is `undefined` there is none at all.) -/
def parse (δ : Type) [Doubles δ] (text : CStr) : Option Json :=
  match Reader.parse δ text with
  | .error _ => none
  | .ok es =>
    match events [] es with
    | some [value] => some value
    | _ => none

end Document

end EyPS
