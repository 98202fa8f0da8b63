/-
Computations that may fail and log what they touch on the way, up to where
they fail. What holds of all that is logged is checked one call after the
other (`all_bind`), each call being reached only where those before it have
returned.
-/
import Mathlib.Data.List.Basic

/-- An outcome, and what was logged. -/
def Logged (ε ι α : Type) : Type := Except ε α × List ι

namespace Logged

variable {ε ι α β : Type}

def bind (x : Logged ε ι α) (f : α → Logged ε ι β) : Logged ε ι β :=
  match x.1 with
  | .ok a => ((f a).1, x.2 ++ (f a).2)
  | .error e => (.error e, x.2)

instance : Monad (Logged ε ι) where
  pure a := (.ok a, [])
  bind := bind

/-- The outcome is that of the same calls without the log. -/
theorem fst_bind (x : Logged ε ι α) (f : α → Logged ε ι β) : (x >>= f).1 = x.1 >>= fun a => (f a).1 := by
  obtain ⟨r, l⟩ := x
  cases r <;> rfl

/-- Everything logged satisfies `Q`. -/
def All (Q : ι → Prop) (x : Logged ε ι α) : Prop := ∀ i ∈ x.2, Q i

variable {Q : ι → Prop}

theorem all_pure (a : α) : (pure a : Logged ε ι α).All Q := fun _ h => nomatch h

theorem all_bind {x : Logged ε ι α} {f : α → Logged ε ι β} :
    (x >>= f).All Q ↔ x.All Q ∧ ∀ a, x.1 = .ok a → (f a).All Q := by
  obtain ⟨r, l⟩ := x
  cases r with
  | error e =>
    refine ⟨fun h => ⟨h, fun a ha => nomatch ha⟩, fun h => h.1⟩
  | ok a =>
    constructor
    · intro h
      refine ⟨fun i hi => h i (List.mem_append_left _ hi), fun a' ha i hi => ?_⟩
      cases ha
      exact h i (List.mem_append_right _ hi)
    · intro h i hi
      rcases List.mem_append.mp hi with hi | hi
      · exact h.1 i hi
      · exact h.2 a rfl i hi

end Logged
