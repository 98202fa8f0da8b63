/-
`Document::Parse` against the grammar: what it accepts is a JSON text and the
document its value; a JSON text it accepts, but for its numbers.

The events of a part put its value on the document's stack (`Builds`). Those of
the rest of an array or object find the elements before them there, as many as
the loop has counted, while a `SizeType` can count them: each element takes a
byte of the text.
-/
import EyPS.JsonNumbers

namespace EyPS

namespace Document

theorem events_cons {stack stack' : List Json} {e : SaxEvent} (h : event stack e = some stack') (es : List SaxEvent) :
    events stack (e :: es) = events stack' es := by
  simp [events, h]

/-- The values of these members on the stack, the last one on top. -/
def onStack (ms : List (Bytes × Json)) : List Json := (ms.flatMap fun m => [.string m.1, m.2]).reverse

theorem onStack_concat (ms : List (Bytes × Json)) (s : Bytes) (v : Json) :
    onStack (ms ++ [(s, v)]) = v :: .string s :: onStack ms := by
  simp [onStack]

theorem onStack_length (ms : List (Bytes × Json)) : (onStack ms).length = 2 * ms.length := by
  induction ms using List.reverseRecOn with
  | nil => rfl
  | append_singleton ms m ih => rw [onStack_concat, List.length_cons, List.length_cons, ih, List.length_append]; rfl

theorem membersOf_onStack (ms : List (Bytes × Json)) : membersOf (onStack ms).reverse = some ms := by
  rw [onStack, List.reverse_reverse]
  induction ms with
  | nil => rfl
  | cons m ms ih => simpa [membersOf] using ih

theorem event_endObject {ms : List (Bytes × Json)} {n : UInt32} (hn : n.toNat = ms.length) (old : Json)
    (stack : List Json) : event (onStack ms ++ old :: stack) (.endObject n) = some (.object ms :: stack) := by
  have hlen := onStack_length ms
  simp only [event]
  rw [hn, List.drop_left' hlen, List.take_left' hlen, membersOf_onStack]
  rfl

theorem event_endArray {vs : List Json} {n : UInt32} (hn : n.toNat = vs.length) (old : Json) (stack : List Json) :
    event (vs.reverse ++ old :: stack) (.endArray n) = some (.array vs :: stack) := by
  have hlen : vs.reverse.length = vs.length := List.length_reverse
  simp only [event]
  rw [hn, List.drop_left' hlen, List.take_left' hlen, List.reverse_reverse]

end Document

open JsonText in
/-- What the events of a part make of the stack, `count` elements of it being there before
them, unless there are too many for the count. -/
def Builds (count : UInt32) (p : Part) (u : Bytes) (es : List SaxEvent) : Prop :=
  u.length < 2 ^ 32 → match p with
  | .value v => ∀ stack rest, Document.events stack (es ++ rest) = Document.events (v :: stack) rest
  | .elements vs => ∀ (before : List Json) old stack rest, UInt32.ofNat before.length = count →
    before.length + vs.length < 2 ^ 32 →
    Document.events (before.reverse ++ old :: stack) (es ++ rest) = Document.events (.array (before ++ vs) :: stack) rest
  | .members ms => ∀ (before : List (Bytes × Json)) old stack rest, UInt32.ofNat before.length = count →
    before.length + ms.length < 2 ^ 32 →
    Document.events (Document.onStack before ++ old :: stack) (es ++ rest) =
      Document.events (.object (before ++ ms) :: stack) rest

namespace Builds

open Ascii JsonText Document

variable {number : Json → Bytes → Prop} {count : UInt32} {v : Json} {vs : List Json} {s u w w' us : Bytes}
  {ms : List (Bytes × Json)} {es es' : List SaxEvent}

theorem one {e : SaxEvent} (h : e.Puts v) : Builds count (.value v) u [e] :=
  fun _ stack rest => events_cons (h stack) rest

/-- The count with one element more. -/
theorem count_succ {α : Type} {before : List α} (h : UInt32.ofNat before.length = count) (a : α) :
    UInt32.ofNat (before ++ [a]).length = count + 1 := by
  rw [List.length_append, UInt32.ofNat_add, h]
  rfl

/-- The count at the last element. -/
theorem toNat_count {α : Type} {before : List α} (h : UInt32.ofNat before.length = count) (a : α)
    (hlen : before.length + 1 < 2 ^ 32) : (count + 1).toNat = (before ++ [a]).length := by
  rw [← count_succ h a, UInt32.toNat_ofNat_of_lt']
  rw [List.length_append]
  exact hlen

theorem lastElement (h : Builds 0 (.value v) u es) :
    Builds count (.elements [v]) (u ++ (w ++ [closeBracket])) (es ++ [.endArray (count + 1)]) := by
  intro hu before old stack rest hcount hlen
  have hend := event_endArray (toNat_count hcount v hlen) old stack
  simp only [List.length_append] at hu
  rw [List.append_assoc, h (by omega)]
  refine events_cons ?_ rest
  simpa using hend

theorem element (h : Builds 0 (.value v) u es) (hs : Builds (count + 1) (.elements vs) us es') :
    Builds count (.elements (v :: vs)) (u ++ (w ++ comma :: (w' ++ us))) (es ++ es') := by
  intro hu before old stack rest hcount hlen
  simp only [List.length_append, List.length_cons] at hu hlen
  have htail := hs (by omega) (before ++ [v]) old stack rest (count_succ hcount v)
    (by rw [List.length_append, List.length_singleton]; omega)
  rw [List.append_assoc, h (by omega)]
  simpa using htail

theorem emptyArray : Builds count (.value (.array [])) u [.startArray, .endArray 0] := by
  intro _ stack rest
  have hend : event (.array [] :: stack) (.endArray 0) = some (.array [] :: stack) :=
    @event_endArray [] 0 rfl (.array []) stack
  rw [List.cons_append, events_cons rfl]
  exact events_cons hend rest

theorem array (hdenotes : Denotes number (.elements vs) u) (h : Builds 0 (.elements vs) u es) :
    Builds count (.value (.array vs)) (openBracket :: (w ++ u)) (.startArray :: es) := by
  intro hu stack rest
  have hsize : vs.length ≤ u.length := hdenotes.size_le
  simp only [List.length_append, List.length_cons] at hu
  rw [List.cons_append, events_cons rfl]
  exact h (by omega) [] (.array []) stack rest rfl (by rw [List.length_nil]; omega)

/-- A name and a value on the stack. -/
theorem events_member (h : Builds 0 (.value v) u es) (hu : u.length < 2 ^ 32) (before : List (Bytes × Json))
    (old : Json) (stack : List Json) (rest : List SaxEvent) :
    events (onStack before ++ old :: stack) (.key s :: (es ++ rest)) =
      events (onStack (before ++ [(s, v)]) ++ old :: stack) rest := by
  rw [events_cons rfl, h hu, onStack_concat]
  rfl

variable {n w₁ w₂ : Bytes}

theorem lastMember (h : Builds 0 (.value v) u es) :
    Builds count (.members [(s, v)]) (quote :: (n ++ (w₁ ++ colon :: (w₂ ++ (u ++ (w ++ [closeBrace]))))))
      (.key s :: (es ++ [.endObject (count + 1)])) := by
  intro hu before old stack rest hcount hlen
  have hend := event_endObject (toNat_count hcount (s, v) hlen) old stack
  simp only [List.length_append, List.length_cons] at hu
  rw [List.cons_append, List.append_assoc, events_member h (by omega)]
  exact events_cons hend rest

theorem member (h : Builds 0 (.value v) u es) (hs : Builds (count + 1) (.members ms) us es') :
    Builds count (.members ((s, v) :: ms))
      (quote :: (n ++ (w₁ ++ colon :: (w₂ ++ (u ++ (w ++ comma :: (w' ++ us))))))) (.key s :: (es ++ es')) := by
  intro hu before old stack rest hcount hlen
  simp only [List.length_append, List.length_cons] at hu hlen
  have htail := hs (by omega) (before ++ [(s, v)]) old stack rest (count_succ hcount (s, v))
    (by rw [List.length_append, List.length_singleton]; omega)
  rw [List.cons_append, List.append_assoc, events_member h (by omega)]
  rwa [List.append_assoc] at htail

theorem emptyObject : Builds count (.value (.object [])) u [.startObject, .endObject 0] := by
  intro _ stack rest
  have hend : event (.object [] :: stack) (.endObject 0) = some (.object [] :: stack) :=
    @event_endObject [] 0 rfl (.object []) stack
  rw [List.cons_append, events_cons rfl]
  exact events_cons hend rest

theorem object (hdenotes : Denotes number (.members ms) u) (h : Builds 0 (.members ms) u es) :
    Builds count (.value (.object ms)) (openBrace :: (w ++ u)) (.startObject :: es) := by
  intro hu stack rest
  have hsize : ms.length ≤ u.length := hdenotes.size_le
  simp only [List.length_append, List.length_cons] at hu
  rw [List.cons_append, events_cons rfl]
  exact h (by omega) [] (.object []) stack rest rfl (by rw [List.length_nil]; omega)

end Builds

namespace Reader

open Ascii JsonText

variable {δ : Type} [Doubles δ]

/-! ## What is accepted -/

section Sound

variable (δ)

def SoundValue (fuel : Nat) : Prop := ∀ {t es rest}, parseValue δ fuel t = .ok (es, rest) →
  ∃ v u, t = u ++ rest ∧ Denotes NumberText (.value v) u ∧ Builds 0 (.value v) u es

def SoundElements (fuel : Nat) : Prop := ∀ {count t es rest}, parseElements δ fuel count t = .ok (es, rest) →
  ∃ vs u, t = u ++ rest ∧ Denotes NumberText (.elements vs) u ∧ Builds count (.elements vs) u es

def SoundMembers (fuel : Nat) : Prop := ∀ {count t es rest}, parseMembers δ fuel count t = .ok (es, rest) →
  ∃ ms u, t = u ++ rest ∧ Denotes NumberText (.members ms) u ∧ Builds count (.members ms) u es

end Sound

theorem sound_elements {fuel : Nat} (hvalue : SoundValue δ fuel) (helements : SoundElements δ fuel) :
    SoundElements δ (fuel + 1) := by
  intro count t es rest h
  obtain ⟨⟨es₁, t₁⟩, h₁, hloop⟩ := bind_eq_ok.mp h
  obtain ⟨v, u, rfl, hu, hv⟩ := hvalue h₁
  obtain ⟨w, hw, hspace⟩ := space_skipWhitespace t₁
  dsimp only at hloop
  cases hskip : skipWhitespace t₁ with
  | nil => simp [hskip] at hloop
  | cons c t₂ =>
    rw [hskip] at hw
    simp only [hskip] at hloop
    split at hloop
    next hcomma =>
      obtain ⟨⟨es₂, t₃⟩, h₂, hend⟩ := bind_eq_ok.mp hloop
      obtain ⟨rfl, rfl⟩ := Prod.mk.inj (Except.ok.inj hend)
      obtain ⟨w', hw', hspace'⟩ := space_skipWhitespace t₂
      obtain ⟨vs, us, hus, hdenotes, hvs⟩ := helements h₂
      refine ⟨v :: vs, _, ?_, .element hu hspace hspace' hdenotes, hv.element hvs⟩
      rw [hw, hw', hus, hcomma]
      simp
    next =>
      split at hloop
      next hclose =>
        obtain ⟨rfl, rfl⟩ := Prod.mk.inj (Except.ok.inj hloop)
        refine ⟨[v], _, ?_, .lastElement hu hspace, hv.lastElement⟩
        rw [hw, hclose]
        simp
      next => cases hloop

theorem sound_members {fuel : Nat} (hvalue : SoundValue δ fuel) (hmembers : SoundMembers δ fuel) :
    SoundMembers δ (fuel + 1) := by
  intro count t es rest h
  simp only [parseMembers] at h
  cases hquote : consume [quote] t with
  | none => simp [hquote] at h
  | some t₁ =>
    obtain rfl := consume_eq_some.mp hquote
    simp only [hquote] at h
    obtain ⟨⟨s, t₂⟩, hs, h₂⟩ := bind_eq_ok.mp h
    obtain ⟨n, rfl, hn⟩ := parseString_sound hs
    obtain ⟨w₁, hw₁, hspace₁⟩ := space_skipWhitespace t₂
    dsimp only at h₂
    cases hcolon : consume [colon] (skipWhitespace t₂) with
    | none => simp [hcolon] at h₂
    | some t₃ =>
      simp only [hcolon] at h₂
      rw [consume_eq_some.mp hcolon] at hw₁
      obtain ⟨w₂, hw₂, hspace₂⟩ := space_skipWhitespace t₃
      obtain ⟨⟨es₁, t₄⟩, h₁, hloop⟩ := bind_eq_ok.mp h₂
      obtain ⟨v, u, hvu, hu, hv⟩ := hvalue h₁
      obtain ⟨w, hw, hspace⟩ := space_skipWhitespace t₄
      dsimp only at hloop
      cases hskip : skipWhitespace t₄ with
      | nil => simp [hskip] at hloop
      | cons c t₅ =>
        rw [hskip] at hw
        simp only [hskip] at hloop
        split at hloop
        next hcomma =>
          obtain ⟨⟨es₂, t₆⟩, hmore, hend⟩ := bind_eq_ok.mp hloop
          obtain ⟨rfl, rfl⟩ := Prod.mk.inj (Except.ok.inj hend)
          obtain ⟨w', hw', hspace'⟩ := space_skipWhitespace t₅
          obtain ⟨ms, us, hus, hdenotes, hms⟩ := hmembers hmore
          refine ⟨(s, v) :: ms, _, ?_, .member hn hspace₁ hspace₂ hu hspace hspace' hdenotes, hv.member hms⟩
          rw [hw₁, hw₂, hvu, hw, hw', hus, hcomma]
          simp
        next =>
          split at hloop
          next hclose =>
            obtain ⟨rfl, rfl⟩ := Prod.mk.inj (Except.ok.inj hloop)
            refine ⟨[(s, v)], _, ?_, .lastMember hn hspace₁ hspace₂ hu hspace, hv.lastMember⟩
            rw [hw₁, hw₂, hvu, hw, hclose]
            simp
          next => cases hloop

theorem sound_array {fuel : Nat} (helements : SoundElements δ fuel) {t : Bytes} {es : List SaxEvent} {rest : Bytes}
    (h : parseArray δ (fuel + 1) t = .ok (es, rest)) : ∃ v u, openBracket :: t = u ++ rest ∧
      Denotes NumberText (.value v) u ∧ Builds 0 (.value v) u es := by
  obtain ⟨w, hw, hspace⟩ := space_skipWhitespace t
  simp only [parseArray] at h
  cases hclose : consume [closeBracket] (skipWhitespace t) with
  | some t₁ =>
    simp only [hclose] at h
    obtain ⟨rfl, rfl⟩ := Prod.mk.inj (Except.ok.inj h)
    rw [consume_eq_some.mp hclose] at hw
    exact ⟨.array [], _, by rw [hw]; simp, .emptyArray hspace, .emptyArray⟩
  | none =>
    simp only [hclose] at h
    obtain ⟨⟨es₁, t₁⟩, h₁, hend⟩ := bind_eq_ok.mp h
    obtain ⟨rfl, rfl⟩ := Prod.mk.inj (Except.ok.inj hend)
    obtain ⟨vs, u, hu, hdenotes, hvs⟩ := helements h₁
    exact ⟨.array vs, _, by rw [hw, hu]; simp, .array hspace hdenotes, .array hdenotes hvs⟩

theorem sound_object {fuel : Nat} (hmembers : SoundMembers δ fuel) {t : Bytes} {es : List SaxEvent} {rest : Bytes}
    (h : parseObject δ (fuel + 1) t = .ok (es, rest)) : ∃ v u, openBrace :: t = u ++ rest ∧
      Denotes NumberText (.value v) u ∧ Builds 0 (.value v) u es := by
  obtain ⟨w, hw, hspace⟩ := space_skipWhitespace t
  simp only [parseObject] at h
  cases hclose : consume [closeBrace] (skipWhitespace t) with
  | some t₁ =>
    simp only [hclose] at h
    obtain ⟨rfl, rfl⟩ := Prod.mk.inj (Except.ok.inj h)
    rw [consume_eq_some.mp hclose] at hw
    exact ⟨.object [], _, by rw [hw]; simp, .emptyObject hspace, .emptyObject⟩
  | none =>
    simp only [hclose] at h
    obtain ⟨⟨es₁, t₁⟩, h₁, hend⟩ := bind_eq_ok.mp h
    obtain ⟨rfl, rfl⟩ := Prod.mk.inj (Except.ok.inj hend)
    obtain ⟨ms, u, hu, hdenotes, hms⟩ := hmembers h₁
    exact ⟨.object ms, _, by rw [hw, hu]; simp, .object hspace hdenotes, .object hdenotes hms⟩

/-- A word that is there. -/
theorem sound_word {c : UInt8} {word t rest : Bytes} {event : SaxEvent} {es : List SaxEvent} {v : Json}
    (h : parseWord word event t = .ok (es, rest)) (hdenotes : Denotes NumberText (.value v) (c :: word))
    (hputs : event.Puts v) : ∃ v u, c :: t = u ++ rest ∧ Denotes NumberText (.value v) u ∧ Builds 0 (.value v) u es := by
  obtain ⟨rfl, rfl⟩ := parseWord_eq_ok.mp h
  exact ⟨v, c :: word, rfl, hdenotes, .one hputs⟩

theorem sound_number {t rest : Bytes} {es : List SaxEvent} (h : parseNumber δ t = .ok (es, rest)) :
    ∃ v u, t = u ++ rest ∧ Denotes NumberText (.value v) u ∧ Builds 0 (.value v) u es := by
  obtain ⟨u, v, event, rfl, hu, rfl, hputs⟩ := parseNumber_ok h
  exact ⟨v, u, rfl, .number hu, .one hputs⟩

theorem sound_value {fuel : Nat} (harray : ∀ {t es rest}, parseArray δ fuel t = .ok (es, rest) →
      ∃ v u, openBracket :: t = u ++ rest ∧ Denotes NumberText (.value v) u ∧ Builds 0 (.value v) u es)
    (hobject : ∀ {t es rest}, parseObject δ fuel t = .ok (es, rest) →
      ∃ v u, openBrace :: t = u ++ rest ∧ Denotes NumberText (.value v) u ∧ Builds 0 (.value v) u es) :
    SoundValue δ (fuel + 1) := by
  intro t es rest h
  cases t with
  | nil => exact sound_number h
  | cons c t =>
    simp only [parseValue] at h
    split at h
    next hc => exact hc ▸ sound_word h .null fun _ => rfl
    next =>
    split at h
    next hc => exact hc ▸ sound_word h .true fun _ => rfl
    next =>
    split at h
    next hc => exact hc ▸ sound_word h .false fun _ => rfl
    next =>
    split at h
    next hc =>
      obtain ⟨⟨s, t₁⟩, hs, hend⟩ := bind_eq_ok.mp h
      obtain ⟨rfl, rfl⟩ := Prod.mk.inj (Except.ok.inj hend)
      obtain ⟨u, rfl, hu⟩ := parseString_sound hs
      exact ⟨.string s, quote :: u, by rw [hc]; rfl, .string hu, .one fun _ => rfl⟩
    next =>
    split at h
    next hc => exact hc ▸ hobject h
    next =>
    split at h
    next hc => exact hc ▸ harray h
    next => exact sound_number h

theorem sound (fuel : Nat) : SoundValue δ fuel ∧ SoundElements δ fuel ∧ SoundMembers δ fuel := by
  induction fuel using Nat.strong_induction_on with
  | _ fuel ih =>
    cases fuel with
    | zero => refine ⟨fun h => ?_, fun h => ?_, fun h => ?_⟩ <;> cases h
    | succ fuel =>
      obtain ⟨hvalue, helements, hmembers⟩ := ih fuel (Nat.lt_succ_self fuel)
      refine ⟨sound_value (fun h => ?_) fun h => ?_, sound_elements hvalue helements, sound_members hvalue hmembers⟩
      · cases fuel with
        | zero => cases h
        | succ fuel => exact sound_array (ih fuel (by omega)).2.1 h
      · cases fuel with
        | zero => cases h
        | succ fuel => exact sound_object (ih fuel (by omega)).2.2 h

theorem parse_ok {text : CStr} (hlen : text.bytes.length < 2 ^ 32) {es : List SaxEvent}
    (h : parse δ text = .ok es) : ∃ v, IsText NumberText v text.bytes ∧ Document.events [] es = some [v] := by
  obtain ⟨w, hw, hspace⟩ := space_skipWhitespace text.bytes
  unfold parse at h
  split at h
  next => cases h
  next =>
    obtain ⟨⟨es₁, t₁⟩, h₁, hend⟩ := bind_eq_ok.mp h
    obtain ⟨v, u, hu, hdenotes, hv⟩ := (sound _).1 h₁
    obtain ⟨w', hw', hspace'⟩ := space_skipWhitespace t₁
    dsimp only at hend
    split at hend
    next hnil =>
      obtain rfl := Except.ok.inj hend
      rw [hnil, List.append_nil] at hw'
      have htext : text.bytes = w ++ (u ++ w') := by rw [hw, hu, hw']
      have hes := hv (by rw [htext, List.length_append, List.length_append] at hlen; omega) [] []
      rw [List.append_nil] at hes
      exact ⟨v, ⟨w, u, w', htext, hspace, hdenotes, hspace'⟩, hes⟩
    next => cases hend

/-! ## What is not refused -/

theorem stops_space {w t : Bytes} (hw : Space w) (ht : Stops isNumeric t) : Stops isNumeric (w ++ t) := by
  cases w with
  | nil => exact ht
  | cons c w =>
    show isNumeric c = false
    rcases isSpace_iff.mp (hw c List.mem_cons_self) with rfl | rfl | rfl | rfl <;> decide

/-- A number begins with a sign or a digit. -/
theorem head_number {v : Json} {u : Bytes} (h : NumberText v u) :
    ∃ c t, u = c :: t ∧ (c = minus ∨ isDigit c = true) := by
  have hint : ∀ (neg : Bool) {ds : Bytes} (t : Bytes), IntText ds →
      ∃ c t', sign neg ++ (ds ++ t) = c :: t' ∧ (c = minus ∨ isDigit c = true) := by
    intro neg ds t hds
    cases neg with
    | true => exact ⟨minus, _, rfl, .inl rfl⟩
    | false =>
      cases hds with
      | zero => exact ⟨zero, _, rfl, .inr (by decide)⟩
      | digits hc => exact ⟨_, _, rfl, .inr hc⟩
  cases h with
  | @integer neg ds hds =>
    have h := hint neg [] hds
    rwa [List.append_nil] at h
  | double hds => exact hint _ _ hds

theorem parseValue_number {c : UInt8} (hc : c = minus ∨ isDigit c = true) (fuel : Nat) (t : Bytes) :
    parseValue δ (fuel + 1) (c :: t) = parseNumber δ (c :: t) := by
  have hne : ∀ d : UInt8, (d = minus ∨ isDigit d = true) = false → c ≠ d := by
    intro d hd h
    subst h
    simp [hc] at hd
  have h₁ := hne 110 (by decide)
  have h₂ := hne 116 (by decide)
  have h₃ := hne 102 (by decide)
  have h₄ := hne quote (by decide)
  have h₅ := hne openBrace (by decide)
  have h₆ := hne openBracket (by decide)
  simp only [parseValue, if_neg h₁, if_neg h₂, if_neg h₃, if_neg h₄, if_neg h₅, if_neg h₆]

/-- Neither white space nor a closing bracket begins a value. -/
theorem head_value {number : Json → Bytes → Prop} (hnumber : ∀ v u, number v u → NumberText v u) {v : Json} {u : Bytes}
    (h : Denotes number (.value v) u) : ∃ c t, u = c :: t ∧ isSpace c = false ∧ c ≠ closeBracket := by
  cases h with
  | number h =>
    obtain ⟨c, t, rfl, hc⟩ := head_number (hnumber _ _ h)
    refine ⟨c, t, rfl, ?_⟩
    rcases hc with rfl | hc
    · exact ⟨by decide, by decide⟩
    · constructor
      · by_contra hspace
        rcases isSpace_iff.mp (by simpa using hspace) with rfl | rfl | rfl | rfl <;> exact absurd hc (by decide)
      · rintro rfl
        exact absurd hc (by decide)
  | null | true | false | string | emptyArray | array | emptyObject | object =>
    exact ⟨_, _, rfl, by decide, by decide⟩

theorem head_elements {number : Json → Bytes → Prop} (hnumber : ∀ v u, number v u → NumberText v u) {vs : List Json}
    {u : Bytes} (h : Denotes number (.elements vs) u) : ∃ c t, u = c :: t ∧ isSpace c = false ∧ c ≠ closeBracket := by
  cases h with
  | lastElement h _ | element h _ _ _ =>
    obtain ⟨c, t, rfl, hc⟩ := head_value hnumber h
    exact ⟨c, _, rfl, hc⟩

theorem head_members {number : Json → Bytes → Prop} {ms : List (Bytes × Json)} {u : Bytes}
    (h : Denotes number (.members ms) u) : ∃ t, u = quote :: t := by
  cases h with
  | lastMember | member => exact ⟨_, rfl⟩

section Complete

variable (δ)

/-- The part is read from a text that begins with it. -/
def Complete (errors : ParseErrorCode → Prop) (p : Part) (u : Bytes) : Prop :=
  match p with
  | .value v => ∀ fuel r, 3 * u.length + 1 ≤ fuel → Stops isNumeric r →
    ∃ es, Reads errors (parseValue δ fuel (u ++ r)) (es, r) ∧ Builds 0 (.value v) u es
  | .elements vs => ∀ fuel count r, 3 * u.length + 2 ≤ fuel →
    ∃ es, Reads errors (parseElements δ fuel count (u ++ r)) (es, r) ∧ Builds count (.elements vs) u es
  | .members ms => ∀ fuel count r, 3 * u.length + 2 ≤ fuel →
    ∃ es, Reads errors (parseMembers δ fuel count (u ++ r)) (es, r) ∧ Builds count (.members ms) u es

end Complete

variable {number : Json → Bytes → Prop} {errors : ParseErrorCode → Prop} {v : Json} {vs : List Json} {u us w w' : Bytes}

theorem complete_word {c : UInt8} {word : Bytes} {event : SaxEvent}
    (hparse : ∀ fuel t, parseValue δ (fuel + 1) (c :: t) = parseWord word event t) (hputs : event.Puts v) :
    Complete δ errors (.value v) (c :: word) := by
  intro fuel r hfuel _
  obtain ⟨fuel, rfl⟩ := Nat.exists_eq_add_one_of_ne_zero (show fuel ≠ 0 by omega)
  refine ⟨[event], .inl ?_, .one hputs⟩
  rw [List.cons_append, hparse]
  exact parseWord_eq_ok.mpr ⟨rfl, rfl⟩

theorem complete_string {s : Bytes} (h : StringText s u) : Complete δ errors (.value (.string s)) (quote :: u) := by
  intro fuel r hfuel _
  obtain ⟨fuel, rfl⟩ := Nat.exists_eq_add_one_of_ne_zero (show fuel ≠ 0 by omega)
  refine ⟨[.string s], .inl ?_, .one fun _ => rfl⟩
  exact bind_eq_ok.mpr ⟨_, parseString_complete h r, rfl⟩

theorem complete_number (h : NumberText v u) (hread : NumberRead δ errors v u) : Complete δ errors (.value v) u := by
  intro fuel r hfuel hr
  obtain ⟨fuel, rfl⟩ := Nat.exists_eq_add_one_of_ne_zero (show fuel ≠ 0 by omega)
  obtain ⟨event, hread, hputs⟩ := hread r hr
  obtain ⟨c, t, rfl, hc⟩ := head_number h
  refine ⟨[event], ?_, .one hputs⟩
  rw [List.cons_append, parseValue_number hc]
  exact hread

theorem parseValue_array (fuel : Nat) (t : Bytes) : parseValue δ (fuel + 1) (openBracket :: t) = parseArray δ fuel t :=
  rfl

theorem parseValue_object (fuel : Nat) (t : Bytes) : parseValue δ (fuel + 1) (openBrace :: t) = parseObject δ fuel t :=
  rfl

theorem complete_emptyArray (hw : Space w) :
    Complete δ errors (.value (.array [])) (openBracket :: (w ++ [closeBracket])) := by
  intro fuel r hfuel _
  simp only [List.length_cons, List.length_append] at hfuel
  obtain ⟨fuel, rfl⟩ := Nat.exists_eq_add_of_le' (show 2 ≤ fuel by omega)
  refine ⟨_, .inl ?_, .emptyArray⟩
  have hskip : skipWhitespace (w ++ closeBracket :: r) = closeBracket :: r := skipWhitespace_append hw (by exact rfl)
  rw [List.cons_append, List.append_assoc, parseValue_array]
  simp [parseArray, hskip]

theorem complete_array (hnumber : ∀ v u, number v u → NumberText v u) (hw : Space w)
    (hdenotes : Denotes number (.elements vs) u) (h : Complete δ errors (.elements vs) u) :
    Complete δ errors (.value (.array vs)) (openBracket :: (w ++ u)) := by
  intro fuel r hfuel _
  simp only [List.length_cons, List.length_append] at hfuel
  obtain ⟨fuel, rfl⟩ := Nat.exists_eq_add_of_le' (show 2 ≤ fuel by omega)
  obtain ⟨es, hes, hbuilds⟩ := h fuel 0 r (by omega)
  refine ⟨_, ?_, .array hdenotes hbuilds⟩
  obtain ⟨c, t, rfl, hspace, hne⟩ := head_elements hnumber hdenotes
  have hskip : skipWhitespace (w ++ c :: (t ++ r)) = c :: (t ++ r) := skipWhitespace_append hw hspace
  rw [List.cons_append, List.append_assoc, parseValue_array]
  simp only [parseArray, List.cons_append, hskip, consume_eq_none hne]
  exact hes.bind .ok

theorem complete_emptyObject (hw : Space w) :
    Complete δ errors (.value (.object [])) (openBrace :: (w ++ [closeBrace])) := by
  intro fuel r hfuel _
  simp only [List.length_cons, List.length_append] at hfuel
  obtain ⟨fuel, rfl⟩ := Nat.exists_eq_add_of_le' (show 2 ≤ fuel by omega)
  refine ⟨_, .inl ?_, .emptyObject⟩
  have hskip : skipWhitespace (w ++ closeBrace :: r) = closeBrace :: r := skipWhitespace_append hw (by exact rfl)
  rw [List.cons_append, List.append_assoc, parseValue_object]
  simp [parseObject, hskip]

theorem complete_object {ms : List (Bytes × Json)} (hw : Space w) (hdenotes : Denotes number (.members ms) u)
    (h : Complete δ errors (.members ms) u) : Complete δ errors (.value (.object ms)) (openBrace :: (w ++ u)) := by
  intro fuel r hfuel _
  simp only [List.length_cons, List.length_append] at hfuel
  obtain ⟨fuel, rfl⟩ := Nat.exists_eq_add_of_le' (show 2 ≤ fuel by omega)
  obtain ⟨es, hes, hbuilds⟩ := h fuel 0 r (by omega)
  refine ⟨_, ?_, .object hdenotes hbuilds⟩
  obtain ⟨t, rfl⟩ := head_members hdenotes
  have hskip : skipWhitespace (w ++ quote :: (t ++ r)) = quote :: (t ++ r) := skipWhitespace_append hw (by exact rfl)
  rw [List.cons_append, List.append_assoc, parseValue_object]
  simp only [parseObject, List.cons_append, hskip, consume_eq_none (show quote ≠ closeBrace by decide)]
  exact hes.bind .ok

theorem complete_lastElement (h : Complete δ errors (.value v) u) (hw : Space w) :
    Complete δ errors (.elements [v]) (u ++ (w ++ [closeBracket])) := by
  intro fuel count r hfuel
  simp only [List.length_append, List.length_cons] at hfuel
  obtain ⟨fuel, rfl⟩ := Nat.exists_eq_add_one_of_ne_zero (show fuel ≠ 0 by omega)
  obtain ⟨es, hes, hbuilds⟩ := h fuel (w ++ closeBracket :: r) (by omega) (stops_space hw (by exact rfl))
  refine ⟨_, ?_, hbuilds.lastElement⟩
  have hskip : skipWhitespace (w ++ closeBracket :: r) = closeBracket :: r := skipWhitespace_append hw (by exact rfl)
  rw [List.append_assoc, List.append_assoc]
  refine hes.bind ?_
  simp only [hskip]
  exact .ok

theorem complete_element (hnumber : ∀ v u, number v u → NumberText v u) (h : Complete δ errors (.value v) u) (hw : Space w)
    (hw' : Space w') (hdenotes : Denotes number (.elements vs) us) (hs : Complete δ errors (.elements vs) us) :
    Complete δ errors (.elements (v :: vs)) (u ++ (w ++ comma :: (w' ++ us))) := by
  intro fuel count r hfuel
  simp only [List.length_append, List.length_cons] at hfuel
  obtain ⟨fuel, rfl⟩ := Nat.exists_eq_add_one_of_ne_zero (show fuel ≠ 0 by omega)
  obtain ⟨es, hes, hbuilds⟩ := h fuel (w ++ comma :: (w' ++ (us ++ r))) (by omega) (stops_space hw (by exact rfl))
  obtain ⟨es', hes', hbuilds'⟩ := hs fuel (count + 1) r (by omega)
  refine ⟨_, ?_, hbuilds.element hbuilds'⟩
  have hskip : skipWhitespace (w ++ comma :: (w' ++ (us ++ r))) = comma :: (w' ++ (us ++ r)) :=
    skipWhitespace_append hw (by exact rfl)
  have hskip' : skipWhitespace (w' ++ (us ++ r)) = us ++ r := by
    obtain ⟨c, t, rfl, hspace, -⟩ := head_elements hnumber hdenotes
    exact skipWhitespace_append hw' hspace
  simp only [List.append_assoc, List.cons_append]
  refine hes.bind ?_
  simp only [hskip, if_true, hskip']
  exact hes'.bind .ok

/-- From a name to its value. -/
theorem skip_colon {w₁ w₂ t : Bytes} (hw₁ : Space w₁) (hw₂ : Space w₂) (ht : Stops isSpace t) :
    skipWhitespace (w₁ ++ colon :: (w₂ ++ t)) = colon :: (w₂ ++ t) ∧ skipWhitespace (w₂ ++ t) = t :=
  ⟨skipWhitespace_append hw₁ (by exact rfl), skipWhitespace_append hw₂ ht⟩

theorem complete_lastMember {s n w₁ w₂ : Bytes} (hnumber : ∀ v u, number v u → NumberText v u) (hn : StringText s n)
    (hw₁ : Space w₁) (hw₂ : Space w₂) (hdenotes : Denotes number (.value v) u) (h : Complete δ errors (.value v) u)
    (hw : Space w) : Complete δ errors (.members [(s, v)])
      (quote :: (n ++ (w₁ ++ colon :: (w₂ ++ (u ++ (w ++ [closeBrace])))))) := by
  intro fuel count r hfuel
  simp only [List.length_append, List.length_cons] at hfuel
  obtain ⟨fuel, rfl⟩ := Nat.exists_eq_add_one_of_ne_zero (show fuel ≠ 0 by omega)
  obtain ⟨es, hes, hbuilds⟩ := h fuel (w ++ closeBrace :: r) (by omega) (stops_space hw (by exact rfl))
  refine ⟨_, ?_, hbuilds.lastMember⟩
  have hskip : skipWhitespace (w ++ closeBrace :: r) = closeBrace :: r := skipWhitespace_append hw (by exact rfl)
  have hu : Stops isSpace (u ++ (w ++ closeBrace :: r)) := by
    obtain ⟨c, t, rfl, hspace, -⟩ := head_value hnumber hdenotes
    exact hspace
  have hcolon := skip_colon hw₁ hw₂ hu
  simp only [List.append_assoc, List.cons_append, List.nil_append, parseMembers, consume_cons_self]
  refine Reads.bind (.inl (parseString_complete hn _)) ?_
  simp only [hcolon.1, consume_cons_self, hcolon.2]
  refine hes.bind ?_
  simp only [hskip]
  exact .ok

theorem complete_member {s n w₁ w₂ : Bytes} {ms : List (Bytes × Json)} (hnumber : ∀ v u, number v u → NumberText v u)
    (hn : StringText s n) (hw₁ : Space w₁) (hw₂ : Space w₂) (hdenotes : Denotes number (.value v) u)
    (h : Complete δ errors (.value v) u) (hw : Space w) (hw' : Space w') (hdenotes' : Denotes number (.members ms) us)
    (hs : Complete δ errors (.members ms) us) : Complete δ errors (.members ((s, v) :: ms))
      (quote :: (n ++ (w₁ ++ colon :: (w₂ ++ (u ++ (w ++ comma :: (w' ++ us))))))) := by
  intro fuel count r hfuel
  simp only [List.length_append, List.length_cons] at hfuel
  obtain ⟨fuel, rfl⟩ := Nat.exists_eq_add_one_of_ne_zero (show fuel ≠ 0 by omega)
  obtain ⟨es, hes, hbuilds⟩ := h fuel (w ++ comma :: (w' ++ (us ++ r))) (by omega) (stops_space hw (by exact rfl))
  obtain ⟨es', hes', hbuilds'⟩ := hs fuel (count + 1) r (by omega)
  refine ⟨_, ?_, hbuilds.member hbuilds'⟩
  have hskip : skipWhitespace (w ++ comma :: (w' ++ (us ++ r))) = comma :: (w' ++ (us ++ r)) :=
    skipWhitespace_append hw (by exact rfl)
  have hskip' : skipWhitespace (w' ++ (us ++ r)) = us ++ r := by
    obtain ⟨t, rfl⟩ := head_members hdenotes'
    exact skipWhitespace_append hw' (by exact rfl)
  have hu : Stops isSpace (u ++ (w ++ comma :: (w' ++ (us ++ r)))) := by
    obtain ⟨c, t, rfl, hspace, -⟩ := head_value hnumber hdenotes
    exact hspace
  have hcolon := skip_colon hw₁ hw₂ hu
  simp only [List.append_assoc, List.cons_append, parseMembers, consume_cons_self]
  refine Reads.bind (.inl (parseString_complete hn _)) ?_
  simp only [hcolon.1, consume_cons_self, hcolon.2]
  refine hes.bind ?_
  simp only [hskip, if_true, hskip']
  exact hes'.bind .ok

/-- The text of a part is read, but for its numbers. -/
theorem complete (hnumber : ∀ v u, number v u → NumberText v u) (hread : ∀ v u, number v u → NumberRead δ errors v u)
    {p : Part} {u : Bytes} (h : Denotes number p u) : Complete δ errors p u := by
  induction h with
  | null => exact complete_word (fun _ _ => rfl) fun _ => rfl
  | true => exact complete_word (fun _ _ => rfl) fun _ => rfl
  | false => exact complete_word (fun _ _ => rfl) fun _ => rfl
  | number h => exact complete_number (hnumber _ _ h) (hread _ _ h)
  | string h => exact complete_string h
  | emptyArray hw => exact complete_emptyArray hw
  | array hw h ih => exact complete_array hnumber hw h ih
  | lastElement _ hw ih => exact complete_lastElement ih hw
  | element _ hw hw' hs ih ihs => exact complete_element hnumber ih hw hw' hs ihs
  | emptyObject hw => exact complete_emptyObject hw
  | object hw h ih => exact complete_object hw h ih
  | lastMember hn hw₁ hw₂ h hw ih => exact complete_lastMember hnumber hn hw₁ hw₂ h ih hw
  | member hn hw₁ hw₂ h hw hw' hs ih ihs => exact complete_member hnumber hn hw₁ hw₂ h ih hw hw' hs ihs

theorem parse_complete (hnumber : ∀ v u, number v u → NumberText v u)
    (hread : ∀ v u, number v u → NumberRead δ errors v u) {text : CStr} (hlen : text.bytes.length < 2 ^ 32)
    (h : IsText number v text.bytes) :
    ∃ es, Reads errors (parse δ text) es ∧ Document.events [] es = some [v] := by
  obtain ⟨w, u, w', htext, hw, hdenotes, hw'⟩ := h
  obtain ⟨c, t, rfl, hspace, -⟩ := head_value hnumber hdenotes
  have hskip : skipWhitespace (w ++ c :: (t ++ w')) = c :: (t ++ w') := skipWhitespace_append hw hspace
  have hlast : skipWhitespace w' = [] := by
    rw [← List.append_nil w']
    exact skipWhitespace_append (t := []) hw' trivial
  have hstop : Stops isNumeric w' := by
    rw [← List.append_nil w']
    exact stops_space hw' trivial
  obtain ⟨es, hes, hbuilds⟩ := complete (δ := δ) hnumber hread hdenotes (3 * (c :: (t ++ w')).length + 1) w'
    (by simp only [List.length_cons, List.length_append]; omega) hstop
  have hes' := hbuilds (by rw [htext, List.length_append, List.length_append] at hlen; omega) [] []
  rw [List.append_nil] at hes'
  refine ⟨es, ?_, hes'⟩
  unfold parse
  rw [htext, List.cons_append, hskip]
  refine hes.bind ?_
  dsimp only
  rw [if_pos hlast]
  exact .ok

end Reader

namespace Document

open JsonText

variable {δ : Type} [Doubles δ] {text : CStr} {v : Json}

/-- **What is accepted is a JSON text**, and the document is its value. -/
theorem parse_sound (hlen : text.bytes.length < 2 ^ 32) (h : parse δ text = some v) :
    IsText NumberText v text.bytes := by
  unfold parse at h
  split at h
  next => cases h
  next es hes =>
    obtain ⟨v', htext, hevents⟩ := Reader.parse_ok hlen hes
    simp only [hevents] at h
    cases h
    exact htext

/-- **A JSON text is accepted**, unless one of its numbers is not read. -/
theorem parse_complete {number : Json → Bytes → Prop} {errors : ParseErrorCode → Prop}
    (hnumber : ∀ v u, number v u → NumberText v u) (hread : ∀ v u, number v u → Reader.NumberRead δ errors v u)
    (hlen : text.bytes.length < 2 ^ 32) (h : IsText number v text.bytes) :
    parse δ text = some v ∨ ∃ e, errors e ∧ Reader.parse δ text = .error e := by
  obtain ⟨es, hok | herror, hevents⟩ := Reader.parse_complete hnumber hread hlen h
  · exact .inl (by simp [parse, hok, hevents])
  · exact .inr herror

/-- With short numbers it always is. -/
theorem parse_short (hlen : text.bytes.length < 2 ^ 32) (h : IsText Reader.ShortNumber v text.bytes) :
    parse δ text = some v := by
  rcases parse_complete (δ := δ) (fun _ _ h => h.numberText) (fun _ _ => Reader.shortNumber_read) hlen h with
    hok | ⟨_, he, -⟩
  · exact hok
  · exact he.elim

end Document

end EyPS
