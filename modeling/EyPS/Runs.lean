/-
Runs of a step function that logs what it does: the state after a list of
actions and the log of what they did, what a kept invariant says of both,
and runs whose steps all meet a condition.

Nothing here is about any one system: a server taking datagrams, a worker
taking packets and a store taking operations are all a `step`.
-/
import Mathlib.Data.List.Basic
import Mathlib.Data.List.Induction

namespace Runs

variable {σ α ε : Type*} {step : σ → α → σ × List ε}

/-- The state after the actions. -/
def final (step : σ → α → σ × List ε) : σ → List α → σ
  | s, [] => s
  | s, a :: as => final step (step s a).1 as

/-- What the actions logged, in order. -/
def log (step : σ → α → σ × List ε) : σ → List α → List ε
  | _, [] => []
  | s, a :: as => (step s a).2 ++ log step (step s a).1 as

/-- Every step of the run is taken from a state and by an action `C` admits. -/
def AllSteps (step : σ → α → σ × List ε) (C : σ → α → Prop) : σ → List α → Prop
  | _, [] => True
  | s, a :: as => C s a ∧ AllSteps step C (step s a).1 as

@[simp] theorem final_nil {s} : final step s [] = s := rfl
@[simp] theorem final_cons {s a as} : final step s (a :: as) = final step (step s a).1 as := rfl
@[simp] theorem log_nil {s} : log step s [] = [] := rfl
@[simp] theorem log_cons {s a as} : log step s (a :: as) = (step s a).2 ++ log step (step s a).1 as := rfl
@[simp] theorem allSteps_nil {C s} : AllSteps step C s [] := trivial
@[simp] theorem allSteps_cons {C s a as} :
    AllSteps step C s (a :: as) ↔ C s a ∧ AllSteps step C (step s a).1 as := Iff.rfl

theorem final_append (s : σ) (as bs : List α) :
    final step s (as ++ bs) = final step (final step s as) bs := by
  induction as generalizing s with
  | nil => rfl
  | cons a as ih => exact ih _

theorem log_append (s : σ) (as bs : List α) :
    log step s (as ++ bs) = log step s as ++ log step (final step s as) bs := by
  induction as generalizing s with
  | nil => rfl
  | cons a as ih => simp [ih]

theorem final_concat (s : σ) (as : List α) (a : α) :
    final step s (as ++ [a]) = (step (final step s as) a).1 := by
  rw [final_append]; rfl

theorem log_concat (s : σ) (as : List α) (a : α) :
    log step s (as ++ [a]) = log step s as ++ (step (final step s as) a).2 := by
  rw [log_append]; simp

theorem allSteps_append {C : σ → α → Prop} {s : σ} {as bs : List α} :
    AllSteps step C s (as ++ bs) ↔ AllSteps step C s as ∧ AllSteps step C (final step s as) bs := by
  induction as generalizing s with
  | nil => simp
  | cons a as ih => simp [ih, and_assoc]

/-- A condition on every step, read at each place the run can be cut. -/
theorem allSteps_iff {C : σ → α → Prop} {s : σ} {as : List α} :
    AllSteps step C s as ↔ ∀ pre a post, as = pre ++ a :: post → C (final step s pre) a := by
  constructor
  · rintro h pre a post rfl
    exact (allSteps_append.mp h).2.1
  · induction as generalizing s with
    | nil => simp
    | cons a as ih =>
      intro h
      exact ⟨h [] a as rfl, ih fun pre b post he => h (a :: pre) b post (by rw [he]; rfl)⟩

theorem AllSteps.imp {C D : σ → α → Prop} (hcd : ∀ s a, C s a → D s a) :
    ∀ {as : List α} {s : σ}, AllSteps step C s as → AllSteps step D s as
  | [], _, _ => trivial
  | _ :: _, _, h => ⟨hcd _ _ h.1, AllSteps.imp hcd h.2⟩

/-! ## Invariants -/

/-- An invariant of the state and of the log so far, kept by every step `C`
admits, holds after a run of such steps. -/
theorem inv_log {C : σ → α → Prop} (I : σ → List ε → Prop)
    (hstep : ∀ s a l, I s l → C s a → I (step s a).1 (l ++ (step s a).2)) :
    ∀ {as : List α} {s : σ} {l : List ε}, I s l → AllSteps step C s as →
      I (final step s as) (l ++ log step s as)
  | [], s, l, h, _ => by simpa using h
  | a :: as, s, l, h, hc => by
    have := inv_log I hstep (hstep s a l h hc.1) hc.2
    simpa [List.append_assoc] using this

/-- An invariant of the state kept by every step `C` admits. -/
theorem inv_of_allSteps {C : σ → α → Prop} (I : σ → Prop) (hstep : ∀ s a, I s → C s a → I (step s a).1)
    {as : List α} {s : σ} (h : I s) (hc : AllSteps step C s as) : I (final step s as) :=
  inv_log (fun s _ => I s) (fun s a _ hs ha => hstep s a hs ha) (l := []) h hc

theorem allSteps_true {s : σ} {as : List α} : AllSteps step (fun _ _ => True) s as := by
  induction as generalizing s with
  | nil => trivial
  | cons a as ih => exact ⟨trivial, ih⟩

/-- An invariant kept by every step. -/
theorem inv (I : σ → Prop) (hstep : ∀ s a, I s → I (step s a).1) {as : List α} {s : σ} (h : I s) :
    I (final step s as) :=
  inv_of_allSteps (C := fun _ _ => True) I (fun s a hs _ => hstep s a hs) h allSteps_true

/-- An invariant of the state and of the log, kept by every step. -/
theorem inv_log_all (I : σ → List ε → Prop) (hstep : ∀ s a l, I s l → I (step s a).1 (l ++ (step s a).2))
    {s : σ} (h : I s []) (as : List α) : I (final step s as) (log step s as) :=
  inv_log (C := fun _ _ => True) I (fun s a l hs _ => hstep s a l hs) h allSteps_true

/-- On the states of an invariant, conditions that agree there agree on runs. -/
theorem allSteps_congr {C D : σ → α → Prop} (I : σ → Prop) (hstep : ∀ s a, I s → I (step s a).1)
    (hcd : ∀ s a, I s → (C s a ↔ D s a)) :
    ∀ {as : List α} {s : σ}, I s → (AllSteps step C s as ↔ AllSteps step D s as)
  | [], _, _ => Iff.rfl
  | a :: _, s, h => and_congr (hcd s a h) (allSteps_congr I hstep hcd (hstep s a h))

/-- The same of runs whose steps `E` admits, where the conditions agree on those. -/
theorem allSteps_congr_within {C D E : σ → α → Prop} (I : σ → Prop)
    (hstep : ∀ s a, I s → E s a → I (step s a).1) (hcd : ∀ s a, I s → E s a → (C s a ↔ D s a)) :
    ∀ {as : List α} {s : σ}, I s → AllSteps step E s as → (AllSteps step C s as ↔ AllSteps step D s as)
  | [], _, _, _ => Iff.rfl
  | a :: _, s, h, he =>
    and_congr (hcd s a h he.1) (allSteps_congr_within I hstep hcd (hstep s a h he.1) he.2)

/-- The same where only the invariant needs `E`. -/
theorem allSteps_congr_of_allSteps {C D E : σ → α → Prop} (I : σ → Prop)
    (hstep : ∀ s a, I s → E s a → I (step s a).1) (hcd : ∀ s a, I s → (C s a ↔ D s a)) {as : List α} {s : σ}
    (h : I s) (he : AllSteps step E s as) : AllSteps step C s as ↔ AllSteps step D s as :=
  allSteps_congr_within I hstep (fun s a hs _ => hcd s a hs) h he

/-- What holds of every logged event is a condition on every step. -/
theorem forall_log_iff {Q : ε → Prop} {s : σ} {as : List α} :
    (∀ e ∈ log step s as, Q e) ↔ AllSteps step (fun s a => ∀ e ∈ (step s a).2, Q e) s as := by
  induction as generalizing s with
  | nil => simp
  | cons a as ih => simp [or_imp, forall_and, ih]

/-- An event in the log was logged by some step of the run. -/
theorem mem_log_iff {e : ε} {s : σ} {as : List α} :
    e ∈ log step s as ↔ ∃ pre a post, as = pre ++ a :: post ∧ e ∈ (step (final step s pre) a).2 := by
  induction as generalizing s with
  | nil => simp
  | cons a as ih =>
    simp only [log_cons, List.mem_append, ih]
    constructor
    · rintro (h | ⟨pre, b, post, rfl, hb⟩)
      · exact ⟨[], a, as, rfl, h⟩
      · exact ⟨a :: pre, b, post, rfl, hb⟩
    · rintro ⟨pre, b, post, he, hb⟩
      cases pre with
      | nil => cases he; exact .inl hb
      | cons c pre => cases he; exact .inr ⟨pre, b, post, rfl, hb⟩

/-! ## Simulation -/

/-- A map that commutes with the steps commutes with the runs. -/
theorem final_map {τ : Type*} {step' : τ → α → τ × List ε} (f : σ → τ)
    (hf : ∀ s a, step' (f s) a = (f (step s a).1, (step s a).2)) (s : σ) (as : List α) :
    final step' (f s) as = f (final step s as) := by
  induction as generalizing s with
  | nil => rfl
  | cons a as ih => simp only [final_cons, hf, ih]

theorem log_map {τ : Type*} {step' : τ → α → τ × List ε} (f : σ → τ)
    (hf : ∀ s a, step' (f s) a = (f (step s a).1, (step s a).2)) (s : σ) (as : List α) :
    log step' (f s) as = log step s as := by
  induction as generalizing s with
  | nil => rfl
  | cons a as ih => simp only [log_cons, hf, ih]

/-- A state no action changes stays, and its runs log nothing. -/
theorem stays {s : σ} (hs : ∀ a, step s a = (s, [])) (as : List α) :
    final step s as = s ∧ log step s as = [] := by
  induction as with
  | nil => exact ⟨rfl, rfl⟩
  | cons a as ih => simpa [hs a] using ih

/-! ## What was logged before -/

/-- `R` holds of every entry of the log and what stands before it. -/
def Cuts (R : List ε → ε → Prop) (l : List ε) : Prop := ∀ pre e post, l = pre ++ e :: post → R pre e

@[simp] theorem cuts_nil {R : List ε → ε → Prop} : Cuts R [] := by
  intro pre e post h
  simp at h

theorem cuts_cons {R : List ε → ε → Prop} {e : ε} {l : List ε} :
    Cuts R (e :: l) ↔ R [] e ∧ Cuts (fun pre => R (e :: pre)) l := by
  constructor
  · intro h
    exact ⟨h [] e l rfl, fun pre x post hl => h (e :: pre) x post (by rw [hl]; rfl)⟩
  · intro ⟨he, hl⟩ pre x post h
    cases pre with
    | nil => cases h; exact he
    | cons y pre => cases h; exact hl pre x post rfl

theorem cuts_append {R : List ε → ε → Prop} {l m : List ε} :
    Cuts R (l ++ m) ↔ Cuts R l ∧ Cuts (fun pre => R (l ++ pre)) m := by
  induction l generalizing R with
  | nil => simp
  | cons e l ih => simp [cuts_cons, ih, and_assoc]

theorem Cuts.imp {R S : List ε → ε → Prop} {l : List ε}
    (h : ∀ pre e post, l = pre ++ e :: post → R pre e → S pre e) (hR : Cuts R l) : Cuts S l :=
  fun pre e post hl => h pre e post hl (hR pre e post hl)

/-- A relation between each entry and every earlier one. -/
theorem cuts_pairwise {R : ε → ε → Prop} {l : List ε} :
    Cuts (fun pre e => ∀ a ∈ pre, R a e) l ↔ l.Pairwise R := by
  constructor
  · induction l using List.reverseRecOn with
    | nil => simp
    | append_singleton l e ih =>
      intro h
      refine List.pairwise_append.mpr ⟨ih fun pre x post hl => ?_, List.pairwise_singleton R e, ?_⟩
      · exact h pre x (post ++ [e]) (by rw [hl]; simp)
      · intro a ha b hb
        obtain rfl := List.mem_singleton.mp hb
        exact h l b [] rfl a ha
  · rintro h pre e post rfl a ha
    exact (List.pairwise_append.mp h).2.2 a ha e List.mem_cons_self

/-- A condition on each entry of the log and what stands before it is a
condition on each step, read with an invariant of the state and the log. -/
theorem cuts_log_iff {R : List ε → ε → Prop} {D : σ → α → Prop} (I : σ → List ε → Prop)
    (hstep : ∀ s a l, I s l → I (step s a).1 (l ++ (step s a).2))
    (hR : ∀ s a l, I s l → (Cuts (fun pre => R (l ++ pre)) (step s a).2 ↔ D s a)) :
    ∀ {as : List α} {s : σ} {l : List ε}, I s l →
      (Cuts (fun pre => R (l ++ pre)) (log step s as) ↔ AllSteps step D s as)
  | [], _, _, _ => by simp
  | a :: as, s, l, h => by
    have ih : Cuts (fun pre => R (l ++ (step s a).2 ++ pre)) (log step (step s a).1 as) ↔
        AllSteps step D (step s a).1 as := cuts_log_iff I hstep hR (hstep s a l h)
    simp only [List.append_assoc] at ih
    rw [log_cons, cuts_append, hR s a l h, ih, allSteps_cons]

end Runs
