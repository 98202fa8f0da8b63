/-
Messages cut into parts, each part carrying how many are still to come: the parts of one
message count down to 0. A stream of parts is read back in one way only, so what two
readers have taken from one stream agrees as far as both have read.
-/
import Mathlib.Data.List.Basic

namespace Countdown

variable {α β γ : Type*} (left : α → ℕ) (data : α → List β)

/-- The parts of one message, counting down to 0. -/
def Group : List α → Prop
  | [] => True
  | a :: rest => left a = rest.length ∧ Group rest

/-- The parts of these messages, one message after the other. -/
inductive Framed : List α → List (List β) → Prop
  | nil : Framed [] []
  | cons {group rest : List α} {ms : List (List β)} (hg : Group left group) (hne : group ≠ [])
      (h : Framed rest ms) : Framed (group ++ rest) (group.flatMap data :: ms)

variable {left data}

theorem Framed.single {group : List α} (hg : Group left group) (hne : group ≠ []) :
    Framed left data group [group.flatMap data] := by
  have h : Framed left data (group ++ []) [group.flatMap data] := .cons hg hne .nil
  rwa [List.append_nil] at h

theorem Framed.append {as bs : List α} {ms ns : List (List β)} (ha : Framed left data as ms)
    (hb : Framed left data bs ns) : Framed left data (as ++ bs) (ms ++ ns) := by
  induction ha with
  | nil => exact hb
  | cons hg hne _ ih =>
    rw [List.append_assoc]
    exact .cons hg hne ih

/-- The first part says where its message ends. -/
theorem Group.length_eq {a : α} {rest : List α} (h : Group left (a :: rest)) :
    (a :: rest).length = left a + 1 := by
  rw [List.length_cons, h.1]

/-- Two messages at the head of one stream are the same. -/
theorem Group.unique {as bs cs ds : List α} (ha : Group left as) (hb : Group left bs) (hane : as ≠ [])
    (hbne : bs ≠ []) (h : as ++ cs = bs ++ ds) : as = bs ∧ cs = ds := by
  refine List.append_inj h ?_
  cases as with
  | nil => exact absurd rfl hane
  | cons a as =>
    cases bs with
    | nil => exact absurd rfl hbne
    | cons b bs =>
      obtain rfl : a = b := by simpa using congrArg List.head? h
      rw [ha.length_eq, hb.length_eq]

/-- Behind the parts of some of the messages stand the parts of the others. -/
theorem Framed.split {as bs : List α} {ms ns : List (List β)} (ha : Framed left data as ms)
    (h : Framed left data (as ++ bs) ns) : ∃ ks, ns = ms ++ ks ∧ Framed left data bs ks := by
  induction ha generalizing ns with
  | nil => exact ⟨ns, rfl, h⟩
  | @cons group rest ms hg hne _ ih =>
    generalize hs : group ++ rest ++ bs = stream at h
    cases h with
    | nil =>
      have hnil : group ++ rest ++ bs = [] := hs
      simp [hne] at hnil
    | @cons group' rest' ms' hg' hne' h' =>
      rw [List.append_assoc] at hs
      obtain ⟨rfl, hrest⟩ := hg.unique hg' hne hne' hs
      rw [← hrest] at h'
      obtain ⟨ks, rfl, hks⟩ := ih h'
      exact ⟨ks, rfl, hks⟩

/-- No parts are no messages. -/
theorem Framed.eq_nil {ms : List (List β)} (h : Framed left data [] ms) : ms = [] := by
  generalize hs : ([] : List α) = stream at h
  cases h with
  | nil => rfl
  | cons _ hne _ => simp [hne] at hs

/-- Where the stream ends, its last message does. -/
theorem Framed.left_le {a : α} {as : List α} {ms : List (List β)} (h : Framed left data (a :: as) ms) :
    left a ≤ as.length := by
  generalize hs : a :: as = stream at h
  cases h with
  | nil => cases hs
  | @cons group rest ms hg hne _ =>
    cases group with
    | nil => exact absurd rfl hne
    | cons g gs =>
      obtain ⟨rfl, rfl⟩ := List.cons.inj hs
      show left a ≤ (gs ++ rest).length
      rw [hg.1, List.length_append]
      exact Nat.le_add_right _ _

/-- Once as many parts are there as the first one announces, they are a whole message. -/
theorem Framed.head {a : α} {as bs : List α} {ns : List (List β)} (h : Framed left data (a :: as ++ bs) ns)
    (hlen : left a ≤ as.length) :
    ∃ group rest ms, a :: as = group ++ rest ∧ Group left group ∧ group ≠ [] ∧
      ns = group.flatMap data :: ms ∧ Framed left data (rest ++ bs) ms := by
  generalize hs : a :: as ++ bs = stream at h
  cases h with
  | nil => cases hs
  | @cons group tail ms hg hne h' =>
    have hglen : group.length = left a + 1 := by
      cases group with
      | nil => exact absurd rfl hne
      | cons g gs =>
        obtain rfl : a = g := by simpa using congrArg List.head? hs
        exact hg.length_eq
    -- the message ends within what is there
    have hpre : group <+: a :: as := by
      refine List.prefix_of_prefix_length_le ⟨tail, rfl⟩ ⟨bs, hs⟩ ?_
      rw [hglen, List.length_cons]
      omega
    obtain ⟨rest, hrest⟩ := hpre
    refine ⟨group, rest, ms, hrest.symm, hg, hne, rfl, ?_⟩
    have htail : rest ++ bs = tail := by
      rw [← hrest, List.append_assoc] at hs
      exact List.append_cancel_left hs
    rw [htail]
    exact h'

theorem group_map {f : γ → α} {cs : List γ} : Group left (cs.map f) ↔ Group (fun c => left (f c)) cs := by
  induction cs with
  | nil => exact Iff.rfl
  | cons c cs ih => simp [Group, ih]

end Countdown
