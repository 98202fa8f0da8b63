/-
What the calls of a `Writer` describe, and that the text it writes is read back
as that.

`Described` is the document the calls describe so far: the arrays and objects
that are open, and the root once it is closed. A writer that follows such calls
fails no assertion, and its buffer holds the text of the open parts
(`Writes`); the calls it takes beyond these are those that close an object
after a name.
-/
import Mathlib.Data.List.Forall2
import EyPS.JsonFuel
import EyPS.JsonWriter

namespace EyPS

open Ascii JsonText

/-- An array or object that is open. -/
inductive Frame
  | array (vs : List Json)
  /-- the members, and the name whose value is to come -/
  | object (ms : List (Bytes × Json)) (name : Option Bytes)

/-- The frame with a value more. -/
def Frame.add : Frame → Json → Option Frame
  | .array vs, v => some (.array (vs ++ [v]))
  | .object ms (some n), v => some (.object (ms ++ [(n, v)]) none)
  | .object ms none, .string n => some (.object ms (some n))
  | .object _ none, _ => none

/-- What the calls so far describe. -/
structure Described where
  frames : List Frame
  root : Option Json

namespace Described

def new : Described := ⟨[], none⟩

/-- A value. -/
def value (d : Described) (v : Json) : Option Described :=
  match d.frames with
  | f :: fs => (f.add v).map fun f => { d with frames := f :: fs }
  | [] => if d.root.isSome then none else some { d with root := some v }

/-- A value begins that is open. -/
def start (d : Described) (frame : Frame) : Option Described :=
  match d.frames with
  | .object _ none :: _ => none
  | f :: fs => some { d with frames := frame :: f :: fs }
  | [] => if d.root.isSome then none else some { d with frames := [frame] }

def call (d : Described) : Call → Option Described
  | .null => d.value .null
  | .bool b => d.value (.bool b)
  | .int i => d.value (.ofInt i.toInt)
  | .uint i => d.value (.ofInt i.toNat)
  | .string str | .key str => d.value (.string str)
  | .startObject => d.start (.object [] none)
  | .endObject =>
    match d.frames with
    | .object ms none :: fs => { d with frames := fs }.value (.object ms)
    | _ => none
  | .startArray => d.start (.array [])
  | .endArray =>
    match d.frames with
    | .array vs :: fs => { d with frames := fs }.value (.array vs)
    | _ => none

def calls (d : Described) : List Call → Option Described
  | [] => some d
  | c :: cs =>
    match d.call c with
    | some d => d.calls cs
    | none => none

end Described

/-- The document that the calls describe, if they describe a whole one. -/
def describes (cs : List Call) : Option Json :=
  match Described.new.calls cs with
  | some ⟨[], root⟩ => root
  | _ => none

/-! ## Scalars -/

theorem isDigit_ofNat {c : Char} (h : c.isDigit = true) : isDigit (UInt8.ofNat c.toNat) = true := by
  obtain ⟨hc, hl, hu⟩ := toNat_digit h
  exact isDigit_iff.mpr (by omega)

theorem decimal_map {cs : List Char} (hcs : ∀ c ∈ cs, c.isDigit = true) (i : Nat) :
    decimal i (cs.map fun c => UInt8.ofNat c.toNat) = Nat.ofDigitChars 10 cs i := by
  induction cs generalizing i with
  | nil => rfl
  | cons c cs ih =>
    obtain ⟨hc, hcs⟩ := List.forall_mem_cons.mp hcs
    have hpush : pushDigit i (UInt8.ofNat c.toNat) = 10 * i + (c.toNat - '0'.toNat) := by
      unfold pushDigit
      rw [(toNat_digit hc).1, Nat.mul_comm]
      rfl
    rw [List.map_cons, decimal_cons, ih hcs, hpush, Nat.ofDigitChars_cons]

/-- The digits of a number have no zero in front. -/
theorem toDigits_head {n : Nat} (hn : 0 < n) : ∃ c cs, Nat.toDigits 10 n = c :: cs ∧ c ≠ '0' := by
  induction n using Nat.strong_induction_on with
  | _ n ih =>
    rw [Nat.toDigits_eq_if (by decide)]
    split
    next hlt => exact ⟨n.digitChar, [], rfl, fun h => by rw [Nat.digitChar_eq_zero] at h; omega⟩
    next hge =>
      obtain ⟨c, cs, hcs, hc⟩ := ih (n / 10) (by omega) (by omega)
      exact ⟨c, cs ++ [(n % 10).digitChar], by rw [hcs]; rfl, hc⟩

/-- The digits of a number, as a numeral. -/
theorem digits_numeral (n : Nat) :
    IntText ((Nat.toDigits 10 n).map fun c => UInt8.ofNat c.toNat) ∧
      decimal 0 ((Nat.toDigits 10 n).map fun c => UInt8.ofNat c.toNat) = n := by
  have hdigits : ∀ c ∈ Nat.toDigits 10 n, c.isDigit = true := fun c hc => isDigit_of_mem hc
  refine ⟨?_, by rw [decimal_map hdigits, Nat.ofDigitChars_ten_toDigits]⟩
  rcases Nat.eq_zero_or_pos n with rfl | hn
  · exact .zero
  · obtain ⟨c, cs, hcs, hne⟩ := toDigits_head hn
    rw [hcs] at hdigits ⊢
    obtain ⟨hc, hrest⟩ := List.forall_mem_cons.mp hdigits
    refine .digits (isDigit_ofNat hc) (fun h => hne ?_) ?_
    · have h48 : c.toNat = 48 := by
        rw [← (toNat_digit hc).1, show UInt8.ofNat c.toNat = zero from h]
        rfl
      rw [← Char.ofNat_toNat c, h48]
    · intro b hb
      obtain ⟨d, hd, rfl⟩ := List.mem_map.mp hb
      exact isDigit_ofNat (hrest d hd)

namespace Writer

open Reader

theorem writeInt_short (i : Int32) : ShortNumber (.ofInt i.toInt) (writeInt i) := by
  have hl := i.le_toInt
  have hu := i.toInt_lt
  unfold writeInt toString
  cases h : i.toInt with
  | ofNat n =>
    obtain ⟨hint, hdec⟩ := digits_numeral n
    refine ⟨false, _, hint, ?_, ?_, rfl⟩
    · rw [h, Int.ofNat_eq_natCast] at hu
      rw [hdec]
      simp only [maxUint, Bool.false_eq_true, if_false]
      omega
    · rw [hdec]
      rfl
  | negSucc n =>
    obtain ⟨hint, hdec⟩ := digits_numeral (n + 1)
    refine ⟨true, _, hint, ?_, ?_, rfl⟩
    · rw [h, Int.negSucc_eq] at hl
      rw [hdec]
      simp only [maxUint, if_true]
      omega
    · rw [hdec]
      rfl

theorem writeUint_short (i : UInt32) : ShortNumber (.ofInt i.toNat) (writeUint i) := by
  obtain ⟨hint, hdec⟩ := digits_numeral i.toNat
  refine ⟨false, _, hint, ?_, ?_, rfl⟩
  · have hlt := i.toNat_lt
    rw [hdec]
    simp only [maxUint, Bool.false_eq_true, if_false]
    omega
  · rw [hdec]
    rfl

/-- A control character is escaped as what reads back as it. -/
theorem parseEscape_writeByte : ∀ n < 32, let c := UInt8.ofNat n
    writeByte c = backslash :: (writeByte c).tail ∧ (parseEscape (writeByte c).tail).toOption = some ([c], []) := by
  decide

theorem writeByte_text (c : UInt8) {s u : Bytes} (h : StringText s u) : StringText (c :: s) (writeByte c ++ u) := by
  by_cases hlow : c < 0x20
  · have hn : c.toNat < 32 := UInt8.lt_iff_toNat_lt.mp hlow
    obtain ⟨hbyte, hparse⟩ := parseEscape_writeByte c.toNat hn
    rw [UInt8.ofNat_toNat] at hbyte hparse
    cases hp : parseEscape (writeByte c).tail with
    | error e => simp [hp, Except.toOption] at hparse
    | ok a =>
      rw [hp] at hparse
      obtain rfl := Option.some.inj hparse
      obtain ⟨e, he, htext⟩ := parseEscape_sound hp
      rw [List.append_nil] at he
      rw [hbyte, he]
      exact .escape htext h
  · by_cases hquote : c = quote
    · subst hquote
      exact .escape (.char (by decide)) h
    · by_cases hback : c = backslash
      · subst hback
        exact .escape (.char (by decide)) h
      · have hplain : writeByte c = [c] := by simp [writeByte, escapeOf, hlow, hquote, hback]
        rw [hplain]
        exact .plain ⟨UInt8.not_lt.mp hlow, hquote, hback⟩ h

theorem writeString_text (str : Bytes) : StringText str (str.flatMap writeByte ++ [quote]) := by
  induction str with
  | nil => exact .close
  | cons c str ih =>
    rw [List.flatMap_cons, List.append_assoc]
    exact writeByte_text c ih

end Writer

/-! ## The text of what is open -/

/-- A value's text, as a writer writes it. -/
abbrev Text (v : Json) (u : Bytes) : Prop := Denotes Reader.ShortNumber (.value v) u

/-- A member's. -/
def MemberText (m : Bytes × Json) (t : Bytes) : Prop :=
  ∃ n u, t = quote :: (n ++ colon :: u) ∧ StringText m.1 n ∧ Text m.2 u

def commas : List Bytes → Bytes
  | [] => []
  | [u] => u
  | u :: u' :: us => u ++ comma :: commas (u' :: us)

theorem commas_concat {us : List Bytes} (hus : us ≠ []) (u : Bytes) : commas (us ++ [u]) = commas us ++ comma :: u := by
  induction us with
  | nil => exact absurd rfl hus
  | cons a us ih =>
    cases us with
    | nil => rfl
    | cons b us =>
      have h := ih (List.cons_ne_nil b us)
      simp only [List.cons_append, commas, List.append_assoc] at h ⊢
      rw [h]

theorem commas_concat_append (us : List Bytes) (a b : Bytes) : commas (us ++ [a]) ++ b = commas (us ++ [a ++ b]) := by
  by_cases hus : us = []
  · subst hus
    rfl
  · rw [commas_concat hus, commas_concat hus, List.append_assoc]
    rfl

theorem elements_text {vs : List Json} {us : List Bytes} (h : List.Forall₂ Text vs us) (hvs : vs ≠ []) :
    Denotes Reader.ShortNumber (.elements vs) (commas us ++ [closeBracket]) := by
  induction h with
  | nil => exact absurd rfl hvs
  | @cons v u vs us hv hrest ih =>
    cases hrest with
    | nil => exact .lastElement hv Space.nil
    | cons hv' hrest =>
      have hs := ih (List.cons_ne_nil _ _)
      have helement := Denotes.element hv Space.nil Space.nil hs
      simpa [commas] using helement

theorem members_text {ms : List (Bytes × Json)} {ts : List Bytes} (h : List.Forall₂ MemberText ms ts) (hms : ms ≠ []) :
    Denotes Reader.ShortNumber (.members ms) (commas ts ++ [closeBrace]) := by
  induction h with
  | nil => exact absurd rfl hms
  | @cons m t ms ts hm hrest ih =>
    obtain ⟨n, u, rfl, hn, hu⟩ := hm
    cases hrest with
    | nil =>
      have hlast := Denotes.lastMember hn Space.nil Space.nil hu Space.nil
      simpa [commas] using hlast
    | cons hm' hrest =>
      have hmember := Denotes.member hn Space.nil Space.nil hu Space.nil Space.nil (ih (List.cons_ne_nil _ _))
      simpa [commas] using hmember

/-- The text of a frame. -/
def FrameText : Frame → Bytes → Prop
  | .array vs, e => ∃ us, List.Forall₂ Text vs us ∧ e = openBracket :: commas us
  | .object ms none, e => ∃ ts, List.Forall₂ MemberText ms ts ∧ e = openBrace :: commas ts
  | .object ms (some s), e => ∃ ts n, List.Forall₂ MemberText ms ts ∧ StringText s n ∧
    e = openBrace :: commas (ts ++ [quote :: n])

def Frame.level : Frame → Level
  | .array vs => ⟨true, vs.length⟩
  | .object ms none => ⟨false, 2 * ms.length⟩
  | .object ms (some _) => ⟨false, 2 * ms.length + 1⟩

def Level.next (level : Level) : Level := { level with valueCount := level.valueCount + 1 }

theorem Frame.level_add {f f' : Frame} {v : Json} (h : f.add v = some f') : f'.level = f.level.next := by
  cases f with
  | array vs =>
    cases h
    simp [Frame.level, Level.next]
  | object ms name =>
    cases name with
    | some n =>
      cases h
      simp [Frame.level, Level.next, Nat.mul_add]
    | none =>
      cases v with
      | string n =>
        cases h
        rfl
      | null | bool | int | number | array | object => cases h

/-- The text of a string value is a string's. -/
theorem text_string {s u : Bytes} (h : Text (.string s) u) : ∃ n, u = quote :: n ∧ StringText s n := by
  cases h with
  | string h => exact ⟨_, rfl, h⟩
  | number h =>
    obtain ⟨neg, ds, -, -, hv, -⟩ := h
    unfold Json.ofInt at hv
    split at hv <;> cases hv

/-- A value more on a level, with what stands between it and those before. -/
theorem commas_separator {us : List Bytes} {n : Nat} (hn : us.length = n) (u : Bytes) :
    commas us ++ (Writer.separator ⟨true, n⟩ ++ u) = commas (us ++ [u]) := by
  cases us with
  | nil =>
    obtain rfl : n = 0 := hn.symm
    rfl
  | cons a us =>
    have hpos : 0 < n := by rw [← hn]; exact Nat.succ_pos _
    rw [commas_concat (List.cons_ne_nil _ _)]
    simp [Writer.separator, hpos]

/-- An object's name is set off as an array's element is. -/
theorem separator_name (n : Nat) : Writer.separator ⟨false, 2 * n⟩ = Writer.separator ⟨true, n⟩ := by
  unfold Writer.separator
  simp

theorem separator_value (n : Nat) : Writer.separator ⟨false, 2 * n + 1⟩ = [colon] := by
  unfold Writer.separator
  simp [Nat.add_mod]

theorem FrameText.add {f f' : Frame} {v : Json} {e u : Bytes} (hf : FrameText f e) (hadd : f.add v = some f')
    (hu : Text v u) : FrameText f' (e ++ (Writer.separator f.level ++ u)) := by
  cases f with
  | array vs =>
    cases hadd
    obtain ⟨us, hus, rfl⟩ := hf
    refine ⟨us ++ [u], List.rel_append hus (.cons hu .nil), ?_⟩
    rw [List.cons_append, Frame.level, commas_separator hus.length_eq.symm]
  | object ms name =>
    cases name with
    | some s =>
      cases hadd
      obtain ⟨ts, n, hts, hn, rfl⟩ := hf
      refine ⟨ts ++ [quote :: (n ++ colon :: u)], List.rel_append hts (.cons ⟨n, u, rfl, hn, hu⟩ .nil), ?_⟩
      rw [List.cons_append, Frame.level, separator_value, commas_concat_append]
      rfl
    | none =>
      cases v with
      | string s =>
        cases hadd
        obtain ⟨ts, hts, rfl⟩ := hf
        obtain ⟨n, rfl, hn⟩ := text_string hu
        refine ⟨ts, n, hts, hn, ?_⟩
        rw [List.cons_append, Frame.level, separator_name, commas_separator hts.length_eq.symm]
      | null | bool | int | number | array | object => cases hadd

theorem FrameText.endArray {vs : List Json} {e : Bytes} (hf : FrameText (.array vs) e) :
    Text (.array vs) (e ++ [closeBracket]) := by
  obtain ⟨us, hus, rfl⟩ := hf
  by_cases hvs : vs = []
  · subst hvs
    cases hus
    exact .emptyArray Space.nil
  · exact .array (w := []) Space.nil (elements_text hus hvs)

theorem FrameText.endObject {ms : List (Bytes × Json)} {e : Bytes} (hf : FrameText (.object ms none) e) :
    Text (.object ms) (e ++ [closeBrace]) := by
  obtain ⟨ts, hts, rfl⟩ := hf
  by_cases hms : ms = []
  · subst hms
    cases hts
    exact .emptyObject Space.nil
  · exact .object (w := []) Space.nil (members_text hts hms)

/-! ## The writer at each call -/

namespace Writer

/-- A name has to come next. -/
def AtName : List Frame → Prop
  | .object _ none :: _ => True
  | _ => False

instance : ∀ fs, Decidable (AtName fs)
  | .object _ none :: _ => .isTrue trivial
  | .object _ (some _) :: _ | .array _ :: _ | [] => .isFalse id

theorem atName_iff (f : Frame) (fs : List Frame) :
    AtName (f :: fs) ↔ (!f.level.inArray && f.level.valueCount % 2 == 0) = true := by
  cases f with
  | array vs => simp [AtName, Frame.level]
  | object ms name => cases name <;> simp [AtName, Frame.level, Nat.add_mod]

theorem atName_object {fs : List Frame} (h : AtName fs) : ∃ ms gs, fs = .object ms none :: gs := by
  cases fs with
  | nil => exact h.elim
  | cons f gs =>
    cases f with
    | array vs => exact h.elim
    | object ms name =>
      cases name with
      | some n => exact h.elim
      | none => exact ⟨ms, gs, rfl⟩

/-- The separator of the value that is open in the innermost frame. -/
def leadOf : List Frame → Bytes
  | [] => []
  | f :: _ => Writer.separator f.level

/-- The text of the frames that are open. -/
def Writes : List Frame → Bytes → Prop
  | [], os => os = []
  | f :: fs, os => ¬ AtName fs ∧ ∃ out e, Writes fs out ∧ FrameText f e ∧ os = out ++ (leadOf fs ++ e)

def levelsOf : List Frame → List Level
  | [] => []
  | f :: fs => f.level :: fs.map (·.level.next)

/-- The writer after the calls that describe this. -/
structure Inv (d : Described) (w : Writer) : Prop where
  levels : w.levels = levelsOf d.frames
  hasRoot : w.hasRoot = (!d.frames.isEmpty || d.root.isSome)
  root : ∀ v, d.root = some v → d.frames = [] ∧ Text v w.os
  frames : d.root = none → Writes d.frames w.os

/-- The writer when the next value is to be put. -/
structure Ready (d : Described) (w : Writer) : Prop where
  levels : w.levels = d.frames.map (·.level.next)
  hasRoot : w.hasRoot = true
  root : d.root = none
  frames : ∃ out, Writes d.frames out ∧ w.os = out ++ leadOf d.frames

theorem Inv.new : Inv .new .new := ⟨rfl, rfl, fun _ h => (Option.some_ne_none _ h.symm).elim, fun _ => rfl⟩

/-- Whether the next value is taken, a string or not. -/
def Accepts (d : Described) (isString : Bool) : Prop :=
  (AtName d.frames → isString = true) ∧ d.root = none

variable {d d' : Described} {w w' : Writer}

namespace Inv

theorem putSeparator_none (h : Inv d w) {isString : Bool} (hd : ¬ Accepts d isString) :
    w.putSeparator isString = none := by
  obtain ⟨frames, root⟩ := d
  obtain ⟨hlevels, hroot, hdone, -⟩ := h
  unfold Writer.putSeparator
  cases root with
  | some v =>
    obtain ⟨rfl, -⟩ := hdone v rfl
    rw [hlevels, hroot]
    rfl
  | none =>
    have hname : AtName frames ∧ isString = false := by simpa [Accepts] using hd
    obtain ⟨hname, rfl⟩ := hname
    cases frames with
    | nil => exact hname.elim
    | cons f fs =>
      have hlevel := (atName_iff f fs).mp hname
      rw [hlevels]
      simp only [levelsOf, hlevel, Bool.not_false, Bool.and_self, if_true]

theorem putSeparator_some (h : Inv d w) {isString : Bool} (hd : Accepts d isString) :
    ∃ w', w.putSeparator isString = some w' ∧ Ready d w' := by
  obtain ⟨frames, root⟩ := d
  obtain ⟨hlevels, hroot, -, hwrites⟩ := h
  obtain ⟨hname, rfl⟩ : (AtName frames → isString = true) ∧ root = none := hd
  have hos := hwrites rfl
  unfold Writer.putSeparator
  cases frames with
  | nil =>
    have hopen : w.levels = [] := hlevels
    have hnew : w.hasRoot = false := hroot
    have hempty : w.os = [] := hos
    rw [hopen, hnew]
    exact ⟨_, rfl, rfl, rfl, rfl, [], rfl, hempty⟩
  | cons f fs =>
    have hlevel : (!f.level.inArray && f.level.valueCount % 2 == 0 && !isString) = false := by
      cases isString with
      | true => exact Bool.and_false _
      | false =>
        have hnot : ¬ AtName (f :: fs) := fun h => Bool.false_ne_true (hname h)
        rw [atName_iff] at hnot
        simpa using hnot
    obtain ⟨w', hput, hputs⟩ := w.put_of_le (Nat.le_refl (separator f.level).length)
    rw [hlevels]
    simp only [levelsOf, hlevel, Bool.false_eq_true, if_false, hput]
    exact ⟨_, rfl, rfl, hputs.hasRoot.trans hroot, rfl, w.os, hos, hputs.os⟩

end Inv

namespace Ready

/-- A value is put. -/
theorem value (h : Ready d w) {v : Json} (hv : AtName d.frames → ∃ s, v = .string s) {u : Bytes} (hu : Text v u) :
    ∃ d', d.value v = some d' ∧ ∀ w', w.Puts u w' → Inv d' w' := by
  obtain ⟨frames, root⟩ := d
  obtain ⟨hlevels, hroot, hnone, out, hout, hos⟩ := h
  obtain rfl : root = none := hnone
  cases frames with
  | nil =>
    obtain rfl : out = [] := hout
    have hempty : w.os = [] := hos
    refine ⟨_, rfl, fun w' hputs => ⟨hputs.levels.trans hlevels, hputs.hasRoot.trans hroot, fun v' h => ⟨rfl, ?_⟩,
      fun h => nomatch h⟩⟩
    obtain rfl := Option.some.inj h
    rw [hputs.os, hempty]
    exact hu
  | cons f fs =>
    obtain ⟨f', hadd⟩ : ∃ f', f.add v = some f' := by
      cases f with
      | array vs => exact ⟨_, rfl⟩
      | object ms name =>
        cases name with
        | some n => exact ⟨_, rfl⟩
        | none =>
          obtain ⟨s, rfl⟩ := hv trivial
          exact ⟨_, rfl⟩
    obtain ⟨hat, out', e, hout', hf, rfl⟩ := hout
    refine ⟨⟨f' :: fs, none⟩, by simp [Described.value, hadd], fun w' hputs => ⟨?_, hputs.hasRoot.trans hroot,
      fun v h => (nomatch h), fun _ => ⟨hat, out', _, hout', hf.add hadd hu, ?_⟩⟩⟩
    · rw [hputs.levels, levelsOf, f.level_add hadd]
      exact hlevels
    · simp [hputs.os, hos, leadOf]

/-- A value begins that is open. -/
theorem start (h : Ready d w) (hd : ¬ AtName d.frames) {f : Frame} {e : Bytes} (hf : FrameText f e) :
    ∃ d', d.start f = some d' ∧ ∀ w', w.Puts e w' → Inv d' { w' with levels := f.level :: w'.levels } := by
  obtain ⟨frames, root⟩ := d
  obtain ⟨hlevels, hroot, hnone, out, hout, hos⟩ := h
  obtain rfl : root = none := hnone
  have hstart : Described.start ⟨frames, none⟩ f = some ⟨f :: frames, none⟩ := by
    cases frames with
    | nil => rfl
    | cons g gs =>
      cases g with
      | array => rfl
      | object ms name =>
        cases name with
        | some => rfl
        | none => exact (hd trivial).elim
  refine ⟨_, hstart, fun w' hputs => ⟨?_, hputs.hasRoot.trans hroot, fun v h => (nomatch h),
    fun _ => ⟨hd, out, e, hout, hf, ?_⟩⟩⟩
  · rw [levelsOf, ← hlevels, hputs.levels]
  · simp [hputs.os, hos]

end Ready

namespace Inv

/-- The innermost frame is closed. -/
theorem stop {f : Frame} {fs : List Frame} {root : Option Json} (h : Inv ⟨f :: fs, root⟩ w) {v : Json}
    {bytes : Bytes} (hbytes : bytes.length ≤ 1) (hf : ∀ e, FrameText f e → Text v (e ++ bytes)) :
    ∃ d' w', Described.value ⟨fs, root⟩ v = some d' ∧ w.stop f.level.inArray bytes = some w' ∧ Inv d' w' := by
  obtain ⟨hlevels, hroot, hdone, hwrites⟩ := h
  cases root with
  | some v => exact nomatch (hdone v rfl).1
  | none =>
    obtain ⟨hat, out, e, hout, he, hos⟩ := hwrites rfl
    have hready : Ready ⟨fs, none⟩ ⟨out ++ leadOf fs, w.capacity, fs.map (·.level.next), w.hasRoot⟩ :=
      ⟨rfl, hroot, rfl, out, hout, rfl⟩
    obtain ⟨d', hd', hinv⟩ := hready.value (fun h => (hat h).elim) (hf e he)
    obtain ⟨w', hput, hputs⟩ := w.put_of_le hbytes
    have hlevel : w.levels = f.level :: fs.map (·.level.next) := hlevels
    refine ⟨d', { w' with levels := fs.map (·.level.next) }, hd', ?_, hinv _ ⟨?_, rfl, hputs.hasRoot⟩⟩
    · unfold Writer.stop
      simp only [hlevel, if_true, hput]
      rfl
    · simp [hputs.os, hos]

theorem scalar (h : Inv d w) {v : Json} {u : Bytes} (hu : Text v u) {isString : Bool}
    (hv : isString = true ↔ ∃ s, v = .string s) {count : Nat} (hcount : u.length ≤ count) :
    (∃ d' w', d.value v = some d' ∧ w.scalar isString count u = some w' ∧ Inv d' w') ∨
    (d.value v = none ∧ w.scalar isString count u = none) := by
  unfold Writer.scalar
  by_cases hd : Accepts d isString
  · obtain ⟨w', hw', hready⟩ := h.putSeparator_some hd
    obtain ⟨d', hd', hinv⟩ := hready.value (fun hat => hv.mp (hd.1 hat)) hu
    obtain ⟨w'', hput, hputs⟩ := w'.put_of_le hcount
    exact .inl ⟨d', w'', hd', by rw [hw']; exact hput, hinv w'' hputs⟩
  · refine .inr ⟨?_, by rw [h.putSeparator_none hd]; rfl⟩
    obtain ⟨frames, root⟩ := d
    cases root with
    | some v' =>
      obtain ⟨rfl, -⟩ := h.root v' rfl
      rfl
    | none =>
      have hname : AtName frames ∧ isString = false := by simpa [Accepts] using hd
      obtain ⟨hname, rfl⟩ := hname
      obtain ⟨ms, fs, rfl⟩ : ∃ ms fs, frames = .object ms none :: fs := atName_object hname
      cases v with
      | string s => exact absurd (hv.mpr ⟨s, rfl⟩) Bool.false_ne_true
      | null | bool | int | number | array | object => rfl

theorem start (h : Inv d w) {f : Frame} {inArray : Bool} {e : Bytes} (hf : FrameText f e)
    (hlevel : f.level = ⟨inArray, 0⟩) (he : e.length ≤ 1) :
    (∃ d' w', d.start f = some d' ∧ w.start inArray e = some w' ∧ Inv d' w') ∨
    (d.start f = none ∧ w.start inArray e = none) := by
  unfold Writer.start
  by_cases hd : Accepts d false
  · obtain ⟨w', hw', hready⟩ := h.putSeparator_some hd
    obtain ⟨d', hd', hinv⟩ := hready.start (fun hat => Bool.false_ne_true (hd.1 hat)) hf
    obtain ⟨w'', hput, hputs⟩ := w'.put_of_le he
    refine .inl ⟨d', { w'' with levels := f.level :: w''.levels }, hd', ?_, hinv w'' hputs⟩
    rw [hw', hlevel]
    show (w'.put 1 e).bind _ = _
    rw [hput]
    rfl
  · refine .inr ⟨?_, by rw [h.putSeparator_none hd]; rfl⟩
    obtain ⟨frames, root⟩ := d
    cases root with
    | some v' =>
      obtain ⟨rfl, -⟩ := h.root v' rfl
      rfl
    | none =>
      have hname : AtName frames := by simpa [Accepts] using hd
      obtain ⟨ms, fs, rfl⟩ : ∃ ms fs, frames = .object ms none :: fs := atName_object hname
      rfl

end Inv

/-- The call closes an object after a name. -/
def leavesName (w : Writer) : Call → Bool
  | .endObject =>
    match w.levels with
    | level :: _ => !level.inArray && level.valueCount % 2 == 1
    | [] => false
  | _ => false

/-- None of the calls does. -/
def tidy (w : Writer) : List Call → Bool
  | [] => true
  | c :: cs =>
    !w.leavesName c &&
      match w.call c with
      | some w => w.tidy cs
      | none => true

/-- Both take the call, or neither does, a name without a value apart. -/
def Agree (d : Described) (w : Writer) (c : Call) : Prop :=
  (∃ d' w', d.call c = some d' ∧ w.call c = some w' ∧ Inv d' w' ∧ w.leavesName c = false) ∨
  (d.call c = none ∧ (w.call c = none ∨ w.leavesName c = true))

theorem Agree.intro {c : Call} (hname : w.leavesName c = false)
    (h : (∃ d' w', d.call c = some d' ∧ w.call c = some w' ∧ Inv d' w') ∨ (d.call c = none ∧ w.call c = none)) :
    Agree d w c := by
  rcases h with ⟨d', w', hd, hw, hinv⟩ | ⟨hd, hw⟩
  · exact .inl ⟨d', w', hd, hw, hinv, hname⟩
  · exact .inr ⟨hd, .inl hw⟩

theorem not_string {v : Json} (h : ∀ s, v ≠ .string s) : false = true ↔ ∃ s, v = .string s :=
  ⟨fun h => (Bool.false_ne_true h).elim, fun ⟨s, hs⟩ => (h s hs).elim⟩

namespace Inv

theorem endObject (h : Inv d w) : Agree d w .endObject := by
  obtain ⟨frames, root⟩ := d
  have hlevels : w.levels = levelsOf frames := h.levels
  cases frames with
  | nil =>
    refine .intro ?_ (.inr ⟨rfl, ?_⟩)
    · simp [Writer.leavesName, hlevels, levelsOf]
    · simp [Writer.call, Writer.stop, hlevels, levelsOf]
  | cons f fs =>
    cases f with
    | array vs =>
      refine .intro ?_ (.inr ⟨rfl, ?_⟩)
      · simp [Writer.leavesName, hlevels, levelsOf, Frame.level]
      · simp [Writer.call, Writer.stop, hlevels, levelsOf, Frame.level]
    | object ms name =>
      cases name with
      | none =>
        refine .intro ?_ (.inl (h.stop (Nat.le_refl 1) fun e => FrameText.endObject))
        simp [Writer.leavesName, hlevels, levelsOf, Frame.level]
      | some n =>
        refine .inr ⟨rfl, .inr ?_⟩
        simp [Writer.leavesName, hlevels, levelsOf, Frame.level, Nat.add_mod]

theorem endArray (h : Inv d w) : Agree d w .endArray := by
  refine .intro rfl ?_
  obtain ⟨frames, root⟩ := d
  have hlevels : w.levels = levelsOf frames := h.levels
  cases frames with
  | nil => exact .inr ⟨rfl, by simp [Writer.call, Writer.stop, hlevels, levelsOf]⟩
  | cons f fs =>
    cases f with
    | array vs => exact .inl (h.stop (Nat.le_refl 1) fun e => FrameText.endArray)
    | object ms name =>
      refine .inr ⟨rfl, ?_⟩
      cases name <;> simp [Writer.call, Writer.stop, hlevels, levelsOf, Frame.level]

/-- A string. -/
theorem string (h : Inv d w) {str : Bytes} (hstr : 2 + 6 * str.length < 2 ^ 32) :
    (∃ d' w', d.value (.string str) = some d' ∧ w.scalar true (stringReserve str) (writeString str) = some w' ∧
      Inv d' w') ∨
    (d.value (.string str) = none ∧ w.scalar true (stringReserve str) (writeString str) = none) := by
  refine h.scalar (.string (Writer.writeString_text str)) (by simp) ?_
  rw [stringReserve_eq hstr]
  exact length_writeString str

theorem call (h : Inv d w) {c : Call} (hc : c.Fits) : Agree d w c := by
  cases c with
  | null => exact .intro rfl (h.scalar .null (not_string nofun) (Nat.le_refl 4))
  | bool b =>
    cases b with
    | true => exact .intro rfl (h.scalar .true (not_string nofun) (Nat.le_refl 4))
    | false => exact .intro rfl (h.scalar .false (not_string nofun) (Nat.le_refl 5))
  | int i =>
    exact .intro rfl (h.scalar (.number (Writer.writeInt_short i)) (not_string (Json.ofInt_ne_string _)) (length_writeInt i))
  | uint i =>
    exact .intro rfl (h.scalar (.number (Writer.writeUint_short i)) (not_string (Json.ofInt_ne_string _))
      (length_writeUint i))
  | string str | key str => exact .intro rfl (h.string hc)
  | startObject => exact .intro rfl (h.start ⟨[], .nil, rfl⟩ rfl (Nat.le_refl 1))
  | endObject => exact h.endObject
  | startArray => exact .intro rfl (h.start ⟨[], .nil, rfl⟩ rfl (Nat.le_refl 1))
  | endArray => exact h.endArray

/-- What any calls do, whose strings are not too long. -/
theorem calls (h : Inv d w) {cs : List Call} (hcs : ∀ c ∈ cs, c.Fits) :
    (∃ d' w', d.calls cs = some d' ∧ w.calls cs = some w' ∧ Inv d' w' ∧ w.tidy cs = true) ∨
    (d.calls cs = none ∧ (w.calls cs = none ∨ w.tidy cs = false)) := by
  induction cs generalizing d w with
  | nil => exact .inl ⟨d, w, rfl, rfl, h, rfl⟩
  | cons c cs ih =>
    obtain ⟨hc, hcs⟩ := List.forall_mem_cons.mp hcs
    unfold Described.calls Writer.calls Writer.tidy
    rcases h.call hc with ⟨d', w', hd, hw, hinv, hname⟩ | ⟨hd, hw | hname⟩
    · simpa only [hd, hw, hname, Bool.not_false, Bool.true_and] using ih hinv hcs
    · simp [hd, hw]
    · simp [hd, hname]

end Inv

/-! ## The text read back -/

/-- `decide` on the right would go through all bytes. -/
theorem ne_zero_of_notMem {u : Bytes} (h : (0 : UInt8) ∉ u) : ∀ c ∈ u, c ≠ 0 := fun _ hc h0 => h (h0 ▸ hc)

theorem isDigit_ne_zero {c : UInt8} (h : isDigit c = true) : c ≠ 0 := by
  rintro rfl
  cases h

theorem hex_ne_zero {ds : Bytes} {i cp : Nat} (h : hex i ds = some cp) : ∀ c ∈ ds, c ≠ 0 := by
  induction ds generalizing i with
  | nil => exact List.forall_mem_nil _
  | cons c ds ih =>
    unfold hex at h
    split at h
    next hc => exact List.forall_mem_cons.mpr ⟨fun h0 => (by subst h0; cases hc), ih h⟩
    next => cases h

theorem escapeText_ne_zero {x e : Bytes} (h : EscapeText x e) : ∀ c ∈ e, c ≠ 0 := by
  have hu : lowerU ≠ 0 := by decide
  have hback : backslash ≠ 0 := by decide
  cases h with
  | char he => exact List.forall_mem_singleton.mpr fun h0 => by subst h0; cases he
  | unicode hds => exact List.forall_mem_cons.mpr ⟨hu, hex_ne_zero hds.2⟩
  | pair hds _ hds' =>
    exact List.forall_mem_cons.mpr ⟨hu, List.forall_mem_append.mpr ⟨hex_ne_zero hds.2,
      List.forall_mem_cons.mpr ⟨hback, List.forall_mem_cons.mpr ⟨hu, hex_ne_zero hds'.2⟩⟩⟩⟩

theorem stringText_ne_zero {s u : Bytes} (h : StringText s u) : ∀ c ∈ u, c ≠ 0 := by
  induction h with
  | close => exact ne_zero_of_notMem (by decide)
  | plain hc _ ih => exact List.forall_mem_cons.mpr ⟨fun h0 => (by subst h0; revert hc; decide), ih⟩
  | escape he _ ih =>
    exact List.forall_mem_cons.mpr ⟨by decide, List.forall_mem_append.mpr ⟨escapeText_ne_zero he, ih⟩⟩

theorem shortNumber_ne_zero {v : Json} {u : Bytes} (h : Reader.ShortNumber v u) : ∀ c ∈ u, c ≠ 0 := by
  obtain ⟨neg, ds, hds, -, -, rfl⟩ := h
  refine List.forall_mem_append.mpr ⟨?_, ?_⟩
  · cases neg <;> exact ne_zero_of_notMem (by decide)
  · cases hds with
    | zero => exact ne_zero_of_notMem (by decide)
    | digits hc _ hds =>
      exact List.forall_mem_cons.mpr ⟨isDigit_ne_zero hc, fun c h => isDigit_ne_zero (hds c h)⟩

theorem space_ne_zero {w : Bytes} (h : Space w) : ∀ c ∈ w, c ≠ 0 := by
  intro c hc h0
  subst h0
  exact absurd (h 0 hc) (by decide)

/-- No byte of a JSON text is NUL. -/
theorem denotes_ne_zero {p : Part} {u : Bytes} (h : Denotes Reader.ShortNumber p u) : ∀ c ∈ u, c ≠ 0 := by
  induction h with
  | null | true | false => exact ne_zero_of_notMem (by decide)
  | number h => exact shortNumber_ne_zero h
  | string h => exact List.forall_mem_cons.mpr ⟨by decide, stringText_ne_zero h⟩
  | emptyArray hw | emptyObject hw =>
    exact List.forall_mem_cons.mpr ⟨by decide, List.forall_mem_append.mpr ⟨space_ne_zero hw,
      ne_zero_of_notMem (by decide)⟩⟩
  | array hw _ ih | object hw _ ih =>
    exact List.forall_mem_cons.mpr ⟨by decide, List.forall_mem_append.mpr ⟨space_ne_zero hw, ih⟩⟩
  | lastElement _ hw ih =>
    exact List.forall_mem_append.mpr ⟨ih, List.forall_mem_append.mpr ⟨space_ne_zero hw,
      ne_zero_of_notMem (by decide)⟩⟩
  | element _ hw hw' _ ih ihs =>
    simp only [List.forall_mem_append, List.forall_mem_cons]
    exact ⟨ih, space_ne_zero hw, by decide, space_ne_zero hw', ihs⟩
  | lastMember hn hw₁ hw₂ _ hw ih =>
    simp only [List.forall_mem_append, List.forall_mem_cons]
    exact ⟨by decide, stringText_ne_zero hn, space_ne_zero hw₁, by decide, space_ne_zero hw₂, ih, space_ne_zero hw,
      by decide, List.forall_mem_nil _⟩
  | member hn hw₁ hw₂ _ hw hw' _ ih ihs =>
    simp only [List.forall_mem_append, List.forall_mem_cons]
    exact ⟨by decide, stringText_ne_zero hn, space_ne_zero hw₁, by decide, space_ne_zero hw₂, ih, space_ne_zero hw,
      by decide, space_ne_zero hw', ihs⟩

theorem describes_some {cs : List Call} {v : Json} (h : describes cs = some v) :
    Described.new.calls cs = some ⟨[], some v⟩ := by
  unfold describes at h
  split at h
  next root heq => rw [heq, h]
  next => cases h

/-- A writer that is complete has the text of a document. -/
theorem Inv.isComplete_iff (h : Inv d w) : w.isComplete = true ↔ ∃ v, d = ⟨[], some v⟩ := by
  obtain ⟨frames, root⟩ := d
  unfold Writer.isComplete
  rw [h.levels, h.hasRoot]
  cases frames with
  | nil => cases root <;> simp [levelsOf]
  | cons f fs => simp [levelsOf]

theorem getString_bytes {v : Json} (h : Text v w.os) : w.getString.bytes = w.os :=
  List.takeWhile_eq_self_iff.mpr fun c hc => by simpa using denotes_ne_zero h c hc

/-- The text of calls that describe a document is read back as it. -/
theorem read_back (δ : Type) [Doubles δ] {cs : List Call} (hcs : ∀ c ∈ cs, c.Fits) {v : Json}
    (h : describes cs = some v) : ∃ w, Writer.new.calls cs = some w ∧ w.isComplete = true ∧
      Writer.new.tidy cs = true ∧ (w.os.length < 2 ^ 32 → Document.parse δ w.getString = some v) := by
  have hcalls := Inv.new.calls hcs
  rw [describes_some h] at hcalls
  rcases hcalls with ⟨d, w, hd, hw, hinv, htidy⟩ | ⟨hd, -⟩
  · obtain rfl := Option.some.inj hd
    have htext : Text v w.os := (hinv.root v rfl).2
    refine ⟨w, hw, hinv.isComplete_iff.mpr ⟨v, rfl⟩, htidy, fun hlen => Document.parse_short ?_ ?_⟩
    · rwa [getString_bytes htext]
    · rw [getString_bytes htext]
      exact ⟨[], w.os, [], by simp, Space.nil, htext, Space.nil⟩
  · cases hd

end Writer

end EyPS
