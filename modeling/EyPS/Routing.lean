/-
Tables of prefix routes: a chain of "starts with" tests of which the first
that holds decides. Where no prefix in a table starts another (`Apart`), two
tests cannot hold at once, so neither the order of a chain matters nor how it
is cut into several.
-/
import Mathlib.Data.List.Basic

namespace Routing

variable {α β : Type*}

/-- No prefix of the table starts another. -/
def Apart (routes : List (List α × β)) : Prop := routes.Pairwise fun r s => ¬ r.1 <+: s.1 ∧ ¬ s.1 <+: r.1

instance [DecidableEq α] (routes : List (List α × β)) : Decidable (Apart routes) :=
  inferInstanceAs (Decidable (routes.Pairwise _))

variable {routes routes' : List (List α × β)} {target : List α} {b : β}

theorem Apart.right (h : Apart (routes ++ routes')) : Apart routes' := (List.pairwise_append.mp h).2.1

variable [DecidableEq α]

/-- What the first route whose prefix starts the target leads to. -/
def select : List (List α × β) → List α → Option β
  | [], _ => none
  | (start, b) :: routes, target => if start <+: target then some b else select routes target

theorem select_eq_none : select routes target = none ↔ ∀ r ∈ routes, ¬ r.1 <+: target := by
  induction routes with
  | nil => simp [select]
  | cons r routes ih =>
    unfold select
    split
    next h => simp [h]
    next h => simp [ih, h]

theorem exists_of_select (h : select routes target = some b) : ∃ start, (start, b) ∈ routes ∧ start <+: target := by
  induction routes with
  | nil => cases h
  | cons r routes ih =>
    unfold select at h
    split at h
    next hr =>
      cases h
      exact ⟨r.1, List.mem_cons_self, hr⟩
    next =>
      obtain ⟨start, hmem, hs⟩ := ih h
      exact ⟨start, List.mem_cons_of_mem r hmem, hs⟩

/-- In a table that is apart a route that matches is the one selected. -/
theorem select_of_mem (hapart : Apart routes) {start : List α} (hmem : (start, b) ∈ routes)
    (hs : start <+: target) : select routes target = some b := by
  induction routes with
  | nil => cases hmem
  | cons r routes ih =>
    obtain ⟨hr, hrest⟩ := List.pairwise_cons.mp hapart
    unfold select
    rcases List.mem_cons.mp hmem with rfl | hmem
    · rw [if_pos hs]
    · rw [if_neg ?_, ih hrest hmem]
      intro hrs
      -- two starts of one target start each other
      rcases List.prefix_or_prefix_of_prefix hrs hs with h | h
      · exact (hr _ hmem).1 h
      · exact (hr _ hmem).2 h

theorem select_append : select (routes ++ routes') target = (select routes target).or (select routes' target) := by
  induction routes with
  | nil => rfl
  | cons r routes ih =>
    simp only [List.cons_append, select]
    split
    · rfl
    · exact ih

theorem select_append_eq_none :
    select (routes ++ routes') target = none ↔ select routes target = none ∧ select routes' target = none := by
  rw [select_append, Option.or_eq_none_iff]

/-- A table cut in two: where one half selects, the other does not. -/
theorem select_append_eq_some (hapart : Apart (routes ++ routes')) : select (routes ++ routes') target = some b ↔
    select routes target = some b ∧ select routes' target = none ∨
      select routes target = none ∧ select routes' target = some b := by
  constructor
  · intro h
    rw [select_append] at h
    cases hr : select routes target with
    | none => exact .inr ⟨rfl, by simpa [hr] using h⟩
    | some b' =>
      obtain rfl : b' = b := by simpa [hr] using h
      refine .inl ⟨rfl, select_eq_none.mpr fun r hmem hrs => ?_⟩
      obtain ⟨start, hstart, hs⟩ := exists_of_select hr
      obtain ⟨h1, h2⟩ := (List.pairwise_append.mp hapart).2.2 _ hstart r hmem
      rcases List.prefix_or_prefix_of_prefix hs hrs with h | h
      · exact h1 h
      · exact h2 h
  · rintro (⟨hr, -⟩ | ⟨hr, hr'⟩)
    · simp [select_append, hr]
    · simp [select_append, hr, hr']

end Routing
