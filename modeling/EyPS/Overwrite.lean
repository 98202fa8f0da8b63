/-
A list with a segment stored into it at an offset: the segment where it was
put, the list everywhere else, and longer only if the segment goes past its
end. `StoredAt` says so element by element, and `overwrite` is the one list
that is so.

Nothing here is about any one buffer: a patch inside a vector and a write at
a cursor are both a segment stored.
-/
import Mathlib.Data.List.Basic

namespace Overwrite

variable {α : Type*} {l l' l'' d : List α} {o : Nat}

/-- `l'` is `l` with `d` stored at `o`. -/
structure StoredAt (l : List α) (o : Nat) (d l' : List α) : Prop where
  length : l'.length = max l.length (o + d.length)
  inside : ∀ i, o ≤ i → i < o + d.length → l'[i]? = d[i - o]?
  outside : ∀ i, i < o ∨ o + d.length ≤ i → l'[i]? = l[i]?

def overwrite (l : List α) (o : Nat) (d : List α) : List α := l.take o ++ (d ++ l.drop (o + d.length))

theorem overwrite_length (h : o ≤ l.length) : (overwrite l o d).length = max l.length (o + d.length) := by
  simp only [overwrite, List.length_append, List.length_take, List.length_drop]
  omega

theorem storedAt_overwrite (h : o ≤ l.length) : StoredAt l o d (overwrite l o d) where
  length := overwrite_length h
  inside i hi hi' := by
    have htake : (l.take o).length = o := List.length_take_of_le h
    rw [overwrite, List.getElem?_append_right (by omega), htake, List.getElem?_append_left (by omega)]
  outside i hi := by
    have htake : (l.take o).length = o := List.length_take_of_le h
    rcases hi with hi | hi
    · rw [overwrite, List.getElem?_append_left (by omega), List.getElem?_take_of_lt hi]
    · have hplace : o + d.length + (i - o - d.length) = i := by omega
      rw [overwrite, List.getElem?_append_right (by omega), htake, List.getElem?_append_right (by omega),
        List.getElem?_drop, hplace]

/-- Only one list has the segment stored so. -/
theorem StoredAt.unique (h : StoredAt l o d l') (h' : StoredAt l o d l'') : l' = l'' := by
  refine List.ext_getElem? fun i => ?_
  by_cases hi : o ≤ i ∧ i < o + d.length
  · rw [h.inside i hi.1 hi.2, h'.inside i hi.1 hi.2]
  · have hout : i < o ∨ o + d.length ≤ i := by omega
    rw [h.outside i hout, h'.outside i hout]

theorem storedAt_iff (h : o ≤ l.length) : StoredAt l o d l' ↔ l' = overwrite l o d := by
  constructor
  · exact fun h' => h'.unique (storedAt_overwrite h)
  · rintro rfl
    exact storedAt_overwrite h

/-- At the end of a list a segment is appended. -/
@[simp] theorem overwrite_end (l d : List α) : overwrite l l.length d = l ++ d := by
  simp [overwrite]

@[simp] theorem overwrite_nil (l : List α) (o : Nat) : overwrite l o [] = l := by
  simp [overwrite]

/-- And only there, unless it is empty. -/
theorem storedAt_append_iff (h : o ≤ l.length) : StoredAt l o d (l ++ d) ↔ d = [] ∨ o = l.length := by
  rw [storedAt_iff h]
  constructor
  · intro happ
    have hlen := congrArg List.length happ
    rw [overwrite_length h, List.length_append] at hlen
    by_cases hd : d = []
    · exact .inl hd
    · have hpos := List.length_pos_iff.mpr hd
      exact .inr (by omega)
  · rintro (rfl | rfl)
    · simp
    · simp

end Overwrite
