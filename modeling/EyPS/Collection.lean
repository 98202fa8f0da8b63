/-
Collections: records in insertion order, of which an update changes the
first that matches its filter. What an update leaves alone, what it can add,
and when it is the update of the one record of a key.
-/
import Mathlib.Data.List.Nodup

namespace Collection

variable {α β κ : Type*} {p : α → Bool} {f : α → α} {l : List α} {x : α}

/-- `f` applied to the first record that matches. -/
def updateFirst (p : α → Bool) (f : α → α) : List α → List α
  | [] => []
  | x :: l => if p x then f x :: l else x :: updateFirst p f l

@[simp] theorem updateFirst_nil : updateFirst p f [] = [] := rfl

theorem updateFirst_cons : updateFirst p f (x :: l) = if p x then f x :: l else x :: updateFirst p f l := rfl

/-- Where nothing matches, nothing changes. -/
theorem updateFirst_of_not (h : ∀ x ∈ l, p x = false) : updateFirst p f l = l := by
  induction l with
  | nil => rfl
  | cons x l ih =>
    obtain ⟨hx, hl⟩ := List.forall_mem_cons.mp h
    rw [updateFirst_cons, hx, ih hl]
    simp

/-- Records without a match before the first one are passed over. -/
theorem updateFirst_append_of_not {m : List α} (h : ∀ x ∈ l, p x = false) :
    updateFirst p f (l ++ m) = l ++ updateFirst p f m := by
  induction l with
  | nil => rfl
  | cons x l ih =>
    obtain ⟨hx, hl⟩ := List.forall_mem_cons.mp h
    rw [List.cons_append, updateFirst_cons, hx, ih hl]
    simp

/-- An attribute that `f` keeps is kept, record by record. -/
theorem map_updateFirst (g : α → β) (hg : ∀ x, g (f x) = g x) : (updateFirst p f l).map g = l.map g := by
  induction l with
  | nil => rfl
  | cons x l ih =>
    rw [updateFirst_cons]
    split
    · simp [hg]
    · simp [ih]

theorem any_updateFirst (q : α → Bool) (hq : ∀ x, q (f x) = q x) : (updateFirst p f l).any q = l.any q := by
  have h := congrArg (List.any · id) (map_updateFirst (p := p) (l := l) q hq)
  simpa [List.any_map, Function.comp_def] using h

/-- A record after the update was there before, or is the updated first match. -/
theorem mem_updateFirst {y : α} (h : y ∈ updateFirst p f l) : y ∈ l ∨ ∃ x ∈ l, p x = true ∧ y = f x := by
  induction l with
  | nil => cases h
  | cons x l ih =>
    rw [updateFirst_cons] at h
    split at h
    next hp =>
      rcases List.mem_cons.mp h with rfl | h
      · exact .inr ⟨x, List.mem_cons_self, hp, rfl⟩
      · exact .inl (List.mem_cons_of_mem x h)
    next =>
      rcases List.mem_cons.mp h with rfl | h
      · exact .inl List.mem_cons_self
      · rcases ih h with h | ⟨z, hz, hpz, rfl⟩
        · exact .inl (List.mem_cons_of_mem x h)
        · exact .inr ⟨z, List.mem_cons_of_mem x hz, hpz, rfl⟩

/-- What `f` keeps true of every record stays true. -/
theorem forall_updateFirst {P : α → Prop} (hl : ∀ x ∈ l, P x) (hf : ∀ x ∈ l, P (f x)) :
    ∀ x ∈ updateFirst p f l, P x := by
  intro y hy
  rcases mem_updateFirst hy with hy | ⟨x, hx, -, rfl⟩
  · exact hl y hy
  · exact hf x hx

/-- A symmetric relation between the records, where an updated record has it
with every other. -/
theorem pairwise_updateFirst {R : α → α → Prop} (hsymm : ∀ x y, R x y → R y x) (hl : l.Pairwise R)
    (hf : ∀ x ∈ l, ∀ y ∈ l, R (f x) y) : (updateFirst p f l).Pairwise R := by
  induction l with
  | nil => exact List.Pairwise.nil
  | cons x l ih =>
    obtain ⟨hx, hl⟩ := List.pairwise_cons.mp hl
    rw [updateFirst_cons]
    split
    · exact List.pairwise_cons.mpr
        ⟨fun y hy => hf x List.mem_cons_self y (List.mem_cons_of_mem x hy), hl⟩
    · refine List.pairwise_cons.mpr ⟨fun y hy => ?_, ih hl fun y hy z hz =>
        hf y (List.mem_cons_of_mem x hy) z (List.mem_cons_of_mem x hz)⟩
      rcases mem_updateFirst hy with hy | ⟨z, hz, -, rfl⟩
      · exact hx y hy
      · exact hsymm _ _ (hf z (List.mem_cons_of_mem x hz) x List.mem_cons_self)

/-- A key stays distinct when a record with a new one is appended. -/
theorem nodup_map_append {key : α → κ} (hnd : (l.map key).Nodup) (hx : key x ∉ l.map key) :
    ((l ++ [x]).map key).Nodup := by
  rw [List.map_append, List.map_singleton, ← List.concat_eq_append]
  exact hnd.concat hx

/-- A key stays distinct when the update gives a new one. -/
theorem nodup_map_updateFirst {key : α → κ} (hnd : (l.map key).Nodup) (hf : ∀ x ∈ l, key (f x) ∉ l.map key) :
    ((updateFirst p f l).map key).Nodup := by
  unfold List.Nodup at hnd ⊢
  rw [List.pairwise_map] at hnd ⊢
  refine pairwise_updateFirst (fun _ _ h => Ne.symm h) hnd fun x hx y hy he => hf x hx ?_
  rw [he]
  exact List.mem_map_of_mem hy

/-- What is found by attributes that `f` keeps differs in no kept attribute. -/
theorem map_find?_updateFirst {q : α → Bool} (g : α → β) (hq : ∀ x, q (f x) = q x) (hg : ∀ x, g (f x) = g x) :
    ((updateFirst p f l).find? q).map g = (l.find? q).map g := by
  induction l with
  | nil => rfl
  | cons x l ih =>
    rw [updateFirst_cons]
    split
    · cases hx : q x <;> simp [hq, hx, hg]
    · cases hx : q x <;> simp [hx, ih]

/-- The only match is the first. -/
theorem find?_eq_of_unique (hx : x ∈ l) (hp : p x = true) (hu : ∀ y ∈ l, p y = true → y = x) :
    l.find? p = some x := by
  cases hf : l.find? p with
  | none => exact absurd hp (by simpa using List.find?_eq_none.mp hf x hx)
  | some y => rw [hu y (List.mem_of_find?_eq_some hf) (List.find?_some hf)]

/-- With distinct keys, an update whose first match is `x` is the update of the
record of `x`'s key, and of no other. -/
theorem updateFirst_eq_map [DecidableEq κ] {key : α → κ} (hnd : (l.map key).Nodup) (hx : l.find? p = some x) :
    updateFirst p f l = l.map fun y => if key y = key x then f y else y := by
  induction l with
  | nil => cases hx
  | cons z l ih =>
    rw [List.map_cons, List.nodup_cons] at hnd
    rw [updateFirst_cons]
    cases hz : p z with
    | true =>
      rw [List.find?_cons_of_pos hz, Option.some.injEq] at hx
      subst hx
      have hother : ∀ y ∈ l, (if key y = key z then f y else y) = y := fun y hy =>
        if_neg fun he : key y = key z => hnd.1 (he ▸ List.mem_map_of_mem hy)
      rw [if_pos rfl, List.map_cons, if_pos rfl, List.map_congr_left hother, List.map_id']
    | false =>
      rw [List.find?_cons_of_neg (by simp [hz])] at hx
      have hne : key z ≠ key x := fun he =>
        hnd.1 (he ▸ List.mem_map_of_mem (List.mem_of_find?_eq_some hx))
      rw [if_neg (by simp), ih hnd.2 hx, List.map_cons, if_neg hne]

/-- And only then, where `f` changes every record. -/
theorem updateFirst_eq_map_iff [DecidableEq κ] {key : α → κ} (hnd : (l.map key).Nodup) (hf : ∀ x ∈ l, f x ≠ x)
    (k : κ) :
    ((∃ x ∈ l, key x = k) ∧ updateFirst p f l = l.map fun y => if key y = k then f y else y) ↔
      ∃ x, l.find? p = some x ∧ key x = k := by
  constructor
  · rintro ⟨⟨d, hd, rfl⟩, hmap⟩
    cases hx : l.find? p with
    | none =>
      rw [updateFirst_of_not fun y hy => by simpa using List.find?_eq_none.mp hx y hy] at hmap
      have hd' := List.map_inj_left.mp ((List.map_id' l).trans hmap) d hd
      rw [if_pos rfl] at hd'
      exact absurd hd'.symm (hf d hd)
    | some x =>
      refine ⟨x, rfl, ?_⟩
      rw [updateFirst_eq_map hnd hx] at hmap
      have hxl := List.mem_of_find?_eq_some hx
      have hx' := List.map_inj_left.mp hmap x hxl
      rw [if_pos rfl] at hx'
      by_contra hne
      rw [if_neg hne] at hx'
      exact hf x hxl hx'
  · rintro ⟨x, hx, rfl⟩
    exact ⟨⟨x, List.mem_of_find?_eq_some hx, rfl⟩, updateFirst_eq_map hnd hx⟩

end Collection
