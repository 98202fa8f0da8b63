/-
What the leaves of `JsonReader` read: white space, words, strings and numbers,
each against its part of the grammar. A leaf takes a part of the text as its
grammar says it, and all of it; where the text has such a part, it is not
refused, but for numbers (`Reads`).
-/
import EyPS.JsonReader

namespace EyPS

/-- What is read, unless there is one of these errors. -/
def Reads {α : Type} (errors : ParseErrorCode → Prop) (result : Except ParseErrorCode α) (a : α) : Prop :=
  result = .ok a ∨ ∃ e, errors e ∧ result = .error e

namespace Reads

variable {α β : Type} {errors : ParseErrorCode → Prop} {result : Except ParseErrorCode α}
  {f : α → Except ParseErrorCode β} {a : α} {b : β}

theorem ok : Reads errors (.ok a) a := .inl rfl

theorem error {e : ParseErrorCode} (he : errors e) : Reads errors (.error e) a := .inr ⟨e, he, rfl⟩

theorem bind (h : Reads errors result a) (hf : Reads errors (f a) b) : Reads errors (result >>= f) b := by
  rcases h with rfl | ⟨e, he, rfl⟩
  · exact hf
  · exact error he

end Reads

namespace Reader

open Ascii JsonText

/-! ## White space and words -/

theorem space_skipWhitespace (t : Bytes) : ∃ w, t = w ++ skipWhitespace t ∧ Space w :=
  ⟨t.takeWhile isSpace, List.takeWhile_append_dropWhile.symm, fun _ => List.mem_takeWhile_imp⟩

theorem skipWhitespace_stops {t : Bytes} (h : Stops isSpace t) : skipWhitespace t = t := by
  cases t with
  | nil => rfl
  | cons c t => exact List.dropWhile_cons_of_neg (by simpa [Stops] using h)

theorem skipWhitespace_append {w t : Bytes} (hw : Space w) (h : Stops isSpace t) : skipWhitespace (w ++ t) = t := by
  rw [skipWhitespace, List.dropWhile_append_of_pos hw]
  exact skipWhitespace_stops h

theorem consume_eq_some {word t rest : Bytes} : consume word t = some rest ↔ t = word ++ rest := by
  induction word generalizing t with
  | nil => simp [consume, eq_comm]
  | cons c word ih =>
    cases t with
    | nil => simp [consume]
    | cons d t =>
      unfold consume
      split
      next h => simp [ih, h]
      next h => simp [h]

theorem consume_append (word rest : Bytes) : consume word (word ++ rest) = some rest := consume_eq_some.mpr rfl

@[simp] theorem consume_cons_self (c : UInt8) (rest : Bytes) : consume [c] (c :: rest) = some rest :=
  consume_append [c] rest

theorem consume_eq_none {c d : UInt8} {t : Bytes} (h : d ≠ c) : consume [c] (d :: t) = none := by
  simp [consume, h]

theorem parseWord_eq_ok {word t rest : Bytes} {event : SaxEvent} {events : List SaxEvent} :
    parseWord word event t = .ok (events, rest) ↔ events = [event] ∧ t = word ++ rest := by
  unfold parseWord
  cases h : consume word t with
  | none =>
    have hne : t ≠ word ++ rest := fun ht => by simp [consume_eq_some.mpr ht] at h
    simp [hne]
  | some r =>
    obtain rfl := consume_eq_some.mp h
    simp [eq_comm]

/-! ## Strings -/

theorem parseHex_eq_ok {n cp cp' : Nat} {t rest : Bytes} : parseHex n cp t = .ok (cp', rest) ↔
    ∃ ds, t = ds ++ rest ∧ ds.length = n ∧ hex cp ds = some cp' := by
  induction n generalizing cp t with
  | zero => simp [parseHex, hex, and_comm, eq_comm]
  | succ n ih =>
    cases t with
    | nil =>
      simp only [parseHex, reduceCtorEq, false_iff]
      rintro ⟨ds, ht, hlen, -⟩
      obtain ⟨rfl, -⟩ := List.append_eq_nil_iff.mp ht.symm
      simp at hlen
    | cons c t =>
      unfold parseHex
      cases hc : hexDigit c with
      | none =>
        simp only [reduceCtorEq, false_iff]
        rintro ⟨ds, ht, hlen, hds⟩
        obtain ⟨d, ds, rfl⟩ := List.exists_cons_of_length_eq_add_one hlen
        obtain ⟨rfl, -⟩ := List.cons.inj ht
        simp [hex, hc] at hds
      | some d =>
        simp only [ih]
        constructor
        · intro h
          obtain ⟨ds, rfl, rfl, hds⟩ := h
          exact ⟨c :: ds, rfl, rfl, by simpa [hex, hc] using hds⟩
        · intro h
          obtain ⟨ds, ht, hlen, hds⟩ := h
          obtain ⟨d', ds, rfl⟩ := List.exists_cons_of_length_eq_add_one hlen
          obtain ⟨rfl, rfl⟩ := List.cons.inj ht
          exact ⟨ds, rfl, by simpa using hlen, by simpa [hex, hc] using hds⟩

theorem parseHex4_eq_ok {cp : Nat} {t rest : Bytes} :
    parseHex4 t = .ok (cp, rest) ↔ ∃ ds, t = ds ++ rest ∧ Hex4 cp ds := parseHex_eq_ok

theorem escape_lowerU : escape lowerU = none := by decide

theorem parseEscape_sound {t x rest : Bytes} (h : parseEscape t = .ok (x, rest)) :
    ∃ e, t = e ++ rest ∧ EscapeText x e := by
  cases t with
  | nil => cases h
  | cons e t =>
    simp only [parseEscape] at h
    cases hy : escape e with
    | some y =>
      simp only [hy] at h
      cases h
      exact ⟨[e], rfl, .char hy⟩
    | none =>
      simp only [hy] at h
      split at h
      next he =>
        subst he
        obtain ⟨⟨cp, r⟩, hcp, hthen⟩ := bind_eq_ok.mp h
        obtain ⟨ds, rfl, hds⟩ := parseHex4_eq_ok.mp hcp
        dsimp only at hthen
        split at hthen
        next hlead =>
          split at hthen
          next => cases hthen
          next r' hr =>
            obtain rfl := consume_eq_some.mp hr
            obtain ⟨⟨cp', r''⟩, hcp', hlast⟩ := bind_eq_ok.mp hthen
            obtain ⟨ds', rfl, hds'⟩ := parseHex4_eq_ok.mp hcp'
            dsimp only at hlast
            split at hlast
            next htrail =>
              obtain ⟨rfl, rfl⟩ := Prod.mk.inj (Except.ok.inj hlast)
              exact ⟨_, by simp, .pair hds hlead hds' htrail⟩
            next => cases hlast
        next hlead =>
          cases hthen
          exact ⟨lowerU :: ds, rfl, .unicode hds hlead⟩
      next => cases h

theorem parseEscape_complete {x e : Bytes} (h : EscapeText x e) (rest : Bytes) :
    parseEscape (e ++ rest) = .ok (x, rest) := by
  cases h with
  | char he => simp [parseEscape, he]
  | @unicode cp ds hds hcp =>
    have hhex : parseHex4 (ds ++ rest) = _ := parseHex4_eq_ok.mpr ⟨_, rfl, hds⟩
    simp only [List.cons_append, parseEscape, escape_lowerU, if_true]
    exact bind_eq_ok.mpr ⟨_, hhex, if_neg hcp⟩
  | @pair lead trail ds ds' hds hlead hds' htrail =>
    have hhex : parseHex4 (ds ++ backslash :: lowerU :: (ds' ++ rest)) = _ := parseHex4_eq_ok.mpr ⟨_, rfl, hds⟩
    have hhex' : parseHex4 (ds' ++ rest) = _ := parseHex4_eq_ok.mpr ⟨_, rfl, hds'⟩
    simp only [List.cons_append, List.append_assoc, parseEscape, escape_lowerU, if_true]
    refine bind_eq_ok.mpr ⟨_, hhex, ?_⟩
    rw [if_pos hlead, show consume [backslash, lowerU] (backslash :: lowerU :: (ds' ++ rest)) = some (ds' ++ rest)
      from consume_append _ _]
    exact bind_eq_ok.mpr ⟨_, hhex', if_pos htrail⟩

theorem parseStringToStream_sound {fuel : Nat} {t s rest : Bytes}
    (h : parseStringToStream fuel t = .ok (s, rest)) : ∃ u, t = u ++ rest ∧ StringText s u := by
  induction fuel generalizing t s with
  | zero => cases h
  | succ fuel ih =>
    cases t with
    | nil => cases h
    | cons c t =>
      unfold parseStringToStream at h
      split at h
      next hc =>
        subst hc
        obtain ⟨⟨x, r⟩, hx, h⟩ := bind_eq_ok.mp h
        obtain ⟨⟨s', r'⟩, hs, h⟩ := bind_eq_ok.mp h
        cases h
        obtain ⟨e, rfl, he⟩ := parseEscape_sound hx
        obtain ⟨u, rfl, hu⟩ := ih hs
        exact ⟨_, by simp, .escape he hu⟩
      next hback =>
        split at h
        next hc =>
          cases h
          exact ⟨[quote], by simp [hc], .close⟩
        next hquote =>
          split at h
          next => split at h <;> cases h
          next hlow =>
            obtain ⟨⟨s', r'⟩, hs, h⟩ := bind_eq_ok.mp h
            cases h
            obtain ⟨u, rfl, hu⟩ := ih hs
            exact ⟨c :: u, rfl, .plain ⟨UInt8.not_lt.mp hlow, hquote, hback⟩ hu⟩

theorem parseStringToStream_complete {s u : Bytes} (h : StringText s u) {fuel : Nat} (hfuel : u.length ≤ fuel)
    (rest : Bytes) : parseStringToStream fuel (u ++ rest) = .ok (s, rest) := by
  induction h generalizing fuel with
  | close =>
    obtain ⟨fuel, rfl⟩ := Nat.exists_eq_add_one_of_ne_zero (show fuel ≠ 0 by simp at hfuel; omega)
    rfl
  | @plain c s u hc _ ih =>
    obtain ⟨fuel, rfl⟩ := Nat.exists_eq_add_one_of_ne_zero (show fuel ≠ 0 by simp at hfuel; omega)
    obtain ⟨hlow, hquote, hback⟩ := hc
    rw [List.cons_append, parseStringToStream, if_neg hback, if_neg hquote, if_neg (UInt8.not_lt.mpr hlow),
      ih (by simpa using hfuel)]
    rfl
  | @escape x e s u he _ ih =>
    obtain ⟨fuel, rfl⟩ := Nat.exists_eq_add_one_of_ne_zero (show fuel ≠ 0 by simp at hfuel; omega)
    have hu : u.length ≤ fuel := by
      simp at hfuel
      omega
    rw [List.cons_append, List.append_assoc, parseStringToStream, if_pos rfl]
    exact bind_eq_ok.mpr ⟨_, parseEscape_complete he _, bind_eq_ok.mpr ⟨_, ih hu, rfl⟩⟩

theorem parseString_sound {t s rest : Bytes} (h : parseString t = .ok (s, rest)) :
    ∃ u, t = u ++ rest ∧ StringText s u := parseStringToStream_sound h

theorem parseString_complete {s u : Bytes} (h : StringText s u) (rest : Bytes) :
    parseString (u ++ rest) = .ok (s, rest) :=
  parseStringToStream_complete h (by rw [List.length_append]; omega) rest

end Reader

end EyPS
