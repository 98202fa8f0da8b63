/-
Programs over atomic operations: run alone, run interleaved with others, and
a rely/guarantee rule for what holds of every interleaving.

A program is a tree: it asks for one operation at a time and goes on with
the answer. `exec` gives the operations their meaning on a shared state; an
operation that throws (`none`) ends its program. One that relies on nothing
is known by what it does on its own (`Traces`), and one of bounded depth has
finished once it had its turns (`finishes`).
-/
import Mathlib.Logic.Function.Basic
import EyPS.Runs

namespace Atomic

/-- A program over operations `Op`, `o` being answered by a `Res o`. -/
inductive Prog (Op : Type) (Res : Op → Type) (α : Type)
  | ret (a : α)
  | op (o : Op) (k : Res o → Prog Op Res α)

variable {Op : Type} {Res : Op → Type} {α β σ ι : Type}

namespace Prog

def bind : Prog Op Res α → (α → Prog Op Res β) → Prog Op Res β
  | .ret a, f => f a
  | .op o k, f => .op o fun r => (k r).bind f

instance : Monad (Prog Op Res) where
  pure := .ret
  bind := .bind

@[simp] theorem pure_eq (a : α) : (pure a : Prog Op Res α) = .ret a := rfl
@[simp] theorem bind_eq (p : Prog Op Res α) (f : α → Prog Op Res β) : (p >>= f) = p.bind f := rfl
@[simp] theorem ret_bind (a : α) (f : α → Prog Op Res β) : (Prog.ret a).bind f = f a := rfl
@[simp] theorem op_bind (o : Op) (k : Res o → Prog Op Res α) (f : α → Prog Op Res β) :
    (Prog.op o k).bind f = .op o fun r => (k r).bind f := rfl

variable (exec : (o : Op) → σ → Option (Res o × σ))

/-- The program run alone: its result and the state it leaves. -/
def run : Prog Op Res α → σ → Option (α × σ)
  | .ret a, s => some (a, s)
  | .op o k, s => (exec o s).bind fun (r, s') => (k r).run s'

@[simp] theorem run_ret (a : α) (s : σ) : (Prog.ret a : Prog Op Res α).run exec s = some (a, s) := rfl

@[simp] theorem run_op (o : Op) (k : Res o → Prog Op Res α) (s : σ) :
    (Prog.op o k).run exec s = (exec o s).bind fun rs => (k rs.1).run exec rs.2 := rfl

theorem run_bind (p : Prog Op Res α) (f : α → Prog Op Res β) (s : σ) :
    (p.bind f).run exec s = (p.run exec s).bind fun as => (f as.1).run exec as.2 := by
  induction p generalizing s with
  | ret a => rfl
  | op o k ih =>
    simp only [op_bind, run_op, Option.bind_assoc]
    congr 1
    funext rs
    exact ih rs.1 rs.2

/-- Every operation that the program may ask for satisfies `Q`. -/
def Only (Q : Op → Prop) : Prog Op Res α → Prop
  | .ret _ => True
  | .op o k => Q o ∧ ∀ r, (k r).Only Q

theorem Only.bind {Q : Op → Prop} {p : Prog Op Res α} {f : α → Prog Op Res β} (hp : p.Only Q)
    (hf : ∀ a, (f a).Only Q) : (p.bind f).Only Q := by
  induction p with
  | ret a => exact hf a
  | op o k ih => exact ⟨hp.1, fun r => ih r (hp.2 r)⟩

theorem Only.imp {Q Q' : Op → Prop} (h : ∀ o, Q o → Q' o) {p : Prog Op Res α} (hp : p.Only Q) : p.Only Q' := by
  induction p with
  | ret a => trivial
  | op o k ih => exact ⟨h o hp.1, fun r => ih r (hp.2 r)⟩

end Prog

/-! ## Interleavings -/

/-- The shared state and the programs still to run; `none` once one threw. -/
structure Config (Op : Type) (Res : Op → Type) (α σ ι : Type) where
  shared : σ
  threads : ι → Option (Prog Op Res α)

/-- What the program of `i` returned, if it has. -/
def Config.result (c : Config Op Res α σ ι) (i : ι) : Option α :=
  match c.threads i with
  | some (.ret a) => some a
  | _ => none

theorem Config.result_eq_some {c : Config Op Res α σ ι} {i : ι} {a : α} :
    c.result i = some a ↔ c.threads i = some (.ret a) := by
  unfold Config.result
  split
  next b hb => simp [hb]
  next h => simpa using h a

@[simp] theorem Config.result_update_self [DecidableEq ι] (s : σ) (threads : ι → Option (Prog Op Res α)) (i : ι)
    (a : α) : Config.result ⟨s, Function.update threads i (some (.ret a))⟩ i = some a := by
  simp [Config.result]

theorem Config.result_update_ne [DecidableEq ι] (c : Config Op Res α σ ι) {i j : ι} (hj : j ≠ i) (s : σ)
    (p : Option (Prog Op Res α)) : Config.result ⟨s, Function.update c.threads i p⟩ j = c.result j := by
  simp [Config.result, Function.update_of_ne hj]

/-- One operation done: by whom, which, and the state it was done in. -/
structure Done (Op σ ι : Type) where
  thread : ι
  op : Op
  before : σ

variable (exec : (o : Op) → σ → Option (Res o × σ)) [DecidableEq ι]

/-- Thread `i` does its next operation, if it has one. -/
def step (c : Config Op Res α σ ι) (i : ι) : Config Op Res α σ ι × List (Done Op σ ι) :=
  match c.threads i with
  | some (.op o k) =>
    match exec o c.shared with
    | some (r, s) => (⟨s, Function.update c.threads i (some (k r))⟩, [⟨i, o, c.shared⟩])
    | none => (⟨c.shared, Function.update c.threads i none⟩, [])
  | _ => (c, [])

theorem step_op {c : Config Op Res α σ ι} {i : ι} {o : Op} {k : Res o → Prog Op Res α} {r : Res o} {s : σ}
    (hi : c.threads i = some (.op o k)) (he : exec o c.shared = some (r, s)) :
    step exec c i = (⟨s, Function.update c.threads i (some (k r))⟩, [⟨i, o, c.shared⟩]) := by
  simp [step, hi, he]

theorem step_throw {c : Config Op Res α σ ι} {i : ι} {o : Op} {k : Res o → Prog Op Res α}
    (hi : c.threads i = some (.op o k)) (he : exec o c.shared = none) :
    step exec c i = (⟨c.shared, Function.update c.threads i none⟩, []) := by
  simp [step, hi, he]

theorem step_ret {c : Config Op Res α σ ι} {i : ι} {a : α} (hi : c.threads i = some (.ret a)) :
    step exec c i = (c, []) := by
  simp [step, hi]

/-- What a step can do: nothing, an operation that answers, or one that throws. -/
theorem step_cases (c : Config Op Res α σ ι) (i : ι) : step exec c i = (c, []) ∨
    (∃ o k r s, c.threads i = some (.op o k) ∧ exec o c.shared = some (r, s) ∧
      step exec c i = (⟨s, Function.update c.threads i (some (k r))⟩, [⟨i, o, c.shared⟩])) ∨
    ∃ o k, c.threads i = some (.op o k) ∧ exec o c.shared = none ∧
      step exec c i = (⟨c.shared, Function.update c.threads i none⟩, []) := by
  unfold step
  split
  next o k hi =>
    split
    next r s he => exact .inr (.inl ⟨o, k, r, s, hi, he, rfl⟩)
    next he => exact .inr (.inr ⟨o, k, hi, he, rfl⟩)
  next => exact .inl rfl

/-- A step moves no other thread. -/
theorem step_threads_ne (c : Config Op Res α σ ι) {i j : ι} (hij : i ≠ j) :
    (step exec c j).1.threads i = c.threads i := by
  rcases step_cases exec c j with hs | ⟨o, k, r, s, -, -, hs⟩ | ⟨o, k, -, -, hs⟩ <;> rw [hs]
  · exact Function.update_of_ne hij _ _
  · exact Function.update_of_ne hij _ _

/-- Nor one that has no operation to do. -/
theorem step_threads_of_not_op (c : Config Op Res α σ ι) {i : ι} (h : ∀ o k, c.threads i ≠ some (.op o k))
    (j : ι) : (step exec c j).1.threads i = c.threads i := by
  by_cases hij : i = j
  · subst hij
    rcases step_cases exec c i with hs | ⟨o, k, _, _, hi, -, -⟩ | ⟨o, k, hi, -, -⟩
    · rw [hs]
    · exact absurd hi (h o k)
    · exact absurd hi (h o k)
  · exact step_threads_ne exec c hij

/-- What a program returned stays. -/
theorem result_step {c : Config Op Res α σ ι} {i : ι} {a : α} (h : c.result i = some a) (j : ι) :
    (step exec c j).1.result i = some a := by
  rw [Config.result_eq_some] at h ⊢
  rw [step_threads_of_not_op exec c (fun o k => by rw [h]; simp), h]

/-- And one that threw stays so. -/
theorem thrown_step {c : Config Op Res α σ ι} {i : ι} (h : c.threads i = none) (j : ι) :
    (step exec c j).1.threads i = none := by
  rw [step_threads_of_not_op exec c (fun o k => by rw [h]; simp), h]

/-- At most `n` operations on every path of the program. -/
def Prog.Within : Prog Op Res α → Nat → Prop
  | .ret _, _ => True
  | .op _ _, 0 => False
  | .op _ k, n + 1 => ∀ r, (k r).Within n

/-- Having had its turns, such a program has thrown or returned. -/
theorem finishes (sched : List ι) {c : Config Op Res α σ ι} {i : ι} {p : Prog Op Res α}
    (hp : c.threads i = some p) {n : Nat} (hw : p.Within n) (hn : n ≤ sched.count i) :
    (Runs.final (step exec) c sched).threads i = none ∨
      ∃ a, (Runs.final (step exec) c sched).result i = some a := by
  induction sched generalizing c p n with
  | nil =>
    obtain rfl : n = 0 := by simpa using hn
    cases p with
    | ret a => exact .inr ⟨a, Config.result_eq_some.mpr hp⟩
    | op o k => exact absurd hw id
  | cons j sched ih =>
    rw [Runs.final_cons]
    by_cases hij : i = j
    · subst hij
      cases p with
      | ret a =>
        have hstep := step_threads_of_not_op exec c (fun o k => by rw [hp]; simp) i
        exact ih (n := 0) (hstep.trans hp) trivial (Nat.zero_le _)
      | op o k =>
        cases n with
        | zero => exact absurd hw id
        | succ n =>
          rw [List.count_cons_self] at hn
          cases he : exec o c.shared with
          | none =>
            have hthrown : (step exec c i).1.threads i = none := by
              rw [step_throw exec hp he]
              exact Function.update_self i none c.threads
            refine .inl (Runs.inv (fun c : Config Op Res α σ ι => c.threads i = none) ?_ hthrown)
            exact fun c j h => thrown_step exec h j
          | some rs =>
            have hstep : (step exec c i).1.threads i = some (k rs.1) := by
              rw [step_op exec hp he]
              exact Function.update_self i _ c.threads
            exact ih hstep (hw rs.1) (by omega)
    · rw [List.count_cons_of_ne (Ne.symm hij)] at hn
      exact ih ((step_threads_ne exec c hij).trans hp) hw hn

/-- The programs before any of them has moved. -/
def start (s : σ) (progs : ι → Prog Op Res α) : Config Op Res α σ ι :=
  ⟨s, fun i => some (progs i)⟩

/-- The operations of one thread, with the states they were done in. -/
def own (i : ι) (l : List (Done Op σ ι)) : List (Op × σ) :=
  l.filterMap fun d => if d.thread = i then some (d.op, d.before) else none

theorem mem_own {i : ι} {l : List (Done Op σ ι)} {o : Op} {s : σ} :
    (o, s) ∈ own i l ↔ ⟨i, o, s⟩ ∈ l := by
  simp only [own, List.mem_filterMap, Option.ite_none_right_eq_some, Option.some.injEq, Prod.mk.injEq]
  constructor
  · rintro ⟨d, hd, rfl, rfl, rfl⟩
    exact hd
  · intro h
    exact ⟨_, h, rfl, rfl, rfl⟩

theorem own_append (i : ι) (l m : List (Done Op σ ι)) : own i (l ++ m) = own i l ++ own i m :=
  List.filterMap_append

@[simp] theorem own_cons_self (i : ι) (o : Op) (s : σ) (l : List (Done Op σ ι)) :
    own i (⟨i, o, s⟩ :: l) = (o, s) :: own i l := by
  simp [own]

/-- Where a thread's operations are cut, the log is cut. -/
theorem own_split {i : ι} {l : List (Done Op σ ι)} {es₁ es₂ : List (Op × σ)} {o : Op} {s : σ}
    (h : own i l = es₁ ++ (o, s) :: es₂) :
    ∃ l₁ l₂, l = l₁ ++ ⟨i, o, s⟩ :: l₂ ∧ own i l₁ = es₁ ∧ own i l₂ = es₂ := by
  obtain ⟨l₁, m, rfl, h₁, hm⟩ := List.filterMap_eq_append_iff.mp h
  obtain ⟨l₃, ⟨j, o', s'⟩, l₂, rfl, h₃, hd, h₂⟩ := List.filterMap_eq_cons_iff.mp hm
  simp only [Option.ite_none_right_eq_some, Option.some.injEq, Prod.mk.injEq] at hd
  obtain ⟨rfl, rfl, rfl⟩ := hd
  have h₃ : own j l₃ = [] := List.filterMap_eq_nil_iff.mpr h₃
  exact ⟨l₁ ++ l₃, l₂, by simp, by rw [own_append, h₃, List.append_nil]; exact h₁, h₂⟩

/-! ## Rely and guarantee

`rely` is what the others may do to the state between two operations of
this program, `guar` what each operation of this program does to it, `mid`
what its operations so far are while it has not returned. -/

section Rely

variable (Inv : σ → Prop) (rely guar : σ → σ → Prop) (mid : List (Op × σ) → Prop)

/-- From `s`, having done `es`, whatever the others do in between: every
operation keeps `Inv` and does what is guaranteed, and a result satisfies `R`. -/
def Ok (R : α → List (Op × σ) → σ → Prop) : Prog Op Res α → List (Op × σ) → σ → Prop
  | .ret a, es, s => ∀ s', rely s s' → R a es s'
  | .op o k, es, s => mid es ∧ ∀ s', rely s s' → Inv s' → ∀ r s'', exec o s' = some (r, s'') →
      Inv s'' ∧ guar s' s'' ∧ Ok R (k r) (es ++ [(o, s')]) s''

variable {exec Inv rely guar mid} {R : α → List (Op × σ) → σ → Prop}

/-- What the others do leaves a program as good as it was. -/
theorem Ok.stable (ht : ∀ a b c, rely a b → rely b c → rely a c) {p : Prog Op Res α}
    {es : List (Op × σ)} {s s' : σ} (h : Ok exec Inv rely guar mid R p es s) (hr : rely s s') :
    Ok exec Inv rely guar mid R p es s' := by
  cases p with
  | ret a => exact fun s'' hs => h s'' (ht _ _ _ hr hs)
  | op o k => exact ⟨h.1, fun s'' hs => h.2 s'' (ht _ _ _ hr hs)⟩

theorem Ok.imp {R' : α → List (Op × σ) → σ → Prop} (hR : ∀ a es s, R a es s → R' a es s)
    {p : Prog Op Res α} {es : List (Op × σ)} {s : σ} (h : Ok exec Inv rely guar mid R p es s) :
    Ok exec Inv rely guar mid R' p es s := by
  induction p generalizing es s with
  | ret a => exact fun s' hs => hR _ _ _ (h s' hs)
  | op o k ih =>
    refine ⟨h.1, fun s' hs hi r s'' he => ?_⟩
    obtain ⟨h1, h2, h3⟩ := h.2 s' hs hi r s'' he
    exact ⟨h1, h2, ih r h3⟩

/-- Sequencing: what the first program ends with is what the second starts from. -/
theorem Ok.bind (hrefl : ∀ a, rely a a) {R' : β → List (Op × σ) → σ → Prop} {p : Prog Op Res α}
    {f : α → Prog Op Res β} {es : List (Op × σ)} {s : σ}
    (h : Ok exec Inv rely guar mid (fun a es s => Ok exec Inv rely guar mid R' (f a) es s) p es s) :
    Ok exec Inv rely guar mid R' (p.bind f) es s := by
  induction p generalizing es s with
  | ret a => exact h s (hrefl s)
  | op o k ih =>
    refine ⟨h.1, fun s' hs hi r s'' he => ?_⟩
    obtain ⟨h1, h2, h3⟩ := h.2 s' hs hi r s'' he
    exact ⟨h1, h2, ih r h3⟩

/-- What the others and every operation the program may ask for keep, it keeps. -/
theorem Ok.of_only {Q : Op → Prop} (P : List (Op × σ) → σ → Prop) (hmid : ∀ es s, P es s → mid es)
    (hrely : ∀ es s s', P es s → rely s s' → P es s')
    (hop : ∀ o, Q o → ∀ es s r s', P es s → Inv s → exec o s = some (r, s') →
      Inv s' ∧ guar s s' ∧ P (es ++ [(o, s)]) s')
    (hR : ∀ a es s, P es s → R a es s) {p : Prog Op Res α} (hp : p.Only Q) {es : List (Op × σ)} {s : σ}
    (h : P es s) : Ok exec Inv rely guar mid R p es s := by
  induction p generalizing es s with
  | ret a => exact fun s' hs => hR a es s' (hrely es s s' h hs)
  | op o k ih =>
    refine ⟨hmid es s h, fun s' hs hi r s'' he => ?_⟩
    obtain ⟨h1, h2, h3⟩ := hop o hp.1 es s' r s'' (hrely es s s' h hs) hi he
    exact ⟨h1, h2, ih r (hp.2 r) h3⟩

end Rely

variable {exec} {Inv : σ → Prop} {rely guar : ι → σ → σ → Prop} {mid : ι → List (Op × σ) → Prop}
  {R : ι → α → List (Op × σ) → σ → Prop}

/-- The invariant holds, every program still running is good, and one that
threw had not returned. -/
def AllOk (exec : (o : Op) → σ → Option (Res o × σ)) (Inv : σ → Prop) (rely guar : ι → σ → σ → Prop)
    (mid : ι → List (Op × σ) → Prop) (R : ι → α → List (Op × σ) → σ → Prop)
    (c : Config Op Res α σ ι) (l : List (Done Op σ ι)) : Prop :=
  Inv c.shared ∧ (∀ i, c.threads i = none → mid i (own i l)) ∧ ∀ i p, c.threads i = some p →
    Ok exec Inv (rely i) (guar i) (mid i) (R i) p (own i l) c.shared

theorem AllOk.step (hrefl : ∀ i a, rely i a a) (ht : ∀ i a b c, rely i a b → rely i b c → rely i a c)
    (hg : ∀ i j, i ≠ j → ∀ s s', guar i s s' → rely j s s')
    {c : Config Op Res α σ ι} {l : List (Done Op σ ι)} (h : AllOk exec Inv rely guar mid R c l) (i : ι) :
    AllOk exec Inv rely guar mid R (step exec c i).1 (l ++ (step exec c i).2) := by
  obtain ⟨hinv, hthrown, hrunning⟩ := h
  have hother : ∀ (p : Option (Prog Op Res α)) {j q}, j ≠ i → Function.update c.threads i p j = q →
      c.threads j = q := by
    intro p j q hj hq
    rwa [Function.update_of_ne hj] at hq
  rcases step_cases exec c i with hs | ⟨o, k, r, s, hi, he, hs⟩ | ⟨o, k, hi, -, hs⟩ <;> rw [hs]
  · rw [List.append_nil]
    exact ⟨hinv, hthrown, hrunning⟩
  · obtain ⟨h1, h2, h3⟩ := (hrunning i _ hi).2 c.shared (hrefl i _) hinv r s he
    have hown : ∀ j, j ≠ i → own j (l ++ [⟨i, o, c.shared⟩]) = own j l := by
      intro j hj
      simp [own, Ne.symm hj]
    refine ⟨h1, fun j hp => ?_, fun j p hp => ?_⟩
    · by_cases hj : j = i
      · subst hj; simp at hp
      · rw [hown j hj]
        exact hthrown j (hother _ hj hp)
    · by_cases hj : j = i
      · subst hj
        simp only [Function.update_self, Option.some.injEq] at hp
        subst hp
        simpa [own] using h3
      · rw [hown j hj]
        exact (hrunning j p (hother _ hj hp)).stable (ht j) (hg i j (Ne.symm hj) c.shared s h2)
  · rw [List.append_nil]
    refine ⟨hinv, fun j hp => ?_, fun j p hp => ?_⟩
    · by_cases hj : j = i
      · subst hj
        exact (hrunning j _ hi).1
      · exact hthrown j (hother _ hj hp)
    · by_cases hj : j = i
      · subst hj; simp at hp
      · exact hrunning j p (hother _ hj hp)

/-- **The rely/guarantee rule**: programs each good on its own, each one's
guarantee being what the others rely on, are good in every interleaving. -/
theorem interleaved (hrefl : ∀ i a, rely i a a) (ht : ∀ i a b c, rely i a b → rely i b c → rely i a c)
    (hg : ∀ i j, i ≠ j → ∀ s s', guar i s s' → rely j s s') {s : σ} {progs : ι → Prog Op Res α}
    (hs : Inv s) (hok : ∀ i, Ok exec Inv (rely i) (guar i) (mid i) (R i) (progs i) [] s) (sched : List ι) :
    AllOk exec Inv rely guar mid R (Runs.final (step exec) (start s progs) sched)
      (Runs.log (step exec) (start s progs) sched) := by
  have h0 : AllOk exec Inv rely guar mid R (start s progs) [] := by
    refine ⟨hs, fun i hi => ?_, fun i p hp => ?_⟩
    · cases hi
    · simp only [start, Option.some.injEq] at hp
      subst hp
      exact hok i
  exact Runs.inv_log_all (AllOk exec Inv rely guar mid R) (fun c i l h => h.step hrefl ht hg i) h0 sched

/-- So a finished program's result satisfies its postcondition, in the state reached. -/
theorem AllOk.result (hrefl : ∀ i a, rely i a a) {c : Config Op Res α σ ι} {l : List (Done Op σ ι)}
    (h : AllOk exec Inv rely guar mid R c l) {i : ι} {a : α} (hi : c.result i = some a) :
    R i a (own i l) c.shared := by
  unfold Config.result at hi
  split at hi
  next b hb =>
    cases hi
    exact h.2.2 i _ hb c.shared (hrefl i _)
  next => cases hi

/-- And one that has not finished has done what `mid` says. -/
theorem AllOk.finished {c : Config Op Res α σ ι} {l : List (Done Op σ ι)}
    (h : AllOk exec Inv rely guar mid R c l) {i : ι} (hi : ¬ mid i (own i l)) : ∃ a, c.result i = some a := by
  cases hp : c.threads i with
  | none => exact absurd (h.2.1 i hp) hi
  | some p =>
    cases p with
    | ret a => exact ⟨a, by simp [Config.result, hp]⟩
    | op o k => exact absurd (h.2.2 i _ hp).1 hi

/-! ## What a program does on its own

A program that relies on nothing: `mid` holds of its operations so far
whatever the others do, and in particular of those it has done in the log. -/

section Traces

variable (exec) in
/-- From having done `es`: `mid` holds all along, and a result satisfies `R`. -/
def Traces (mid : List (Op × σ) → Prop) (R : α → List (Op × σ) → Prop) (p : Prog Op Res α)
    (es : List (Op × σ)) : Prop :=
  ∀ s, Ok exec (fun _ => True) (fun _ _ => True) (fun _ _ => True) mid (fun a es _ => R a es) p es s

variable {mid : List (Op × σ) → Prop} {R : α → List (Op × σ) → Prop} {es : List (Op × σ)}

theorem Traces.ret {a : α} (h : R a es) : Traces exec mid R (.ret a) es := fun _ _ _ => h

theorem Traces.op {o : Op} {k : Res o → Prog Op Res α} (hmid : mid es)
    (h : ∀ s r s', exec o s = some (r, s') → Traces exec mid R (k r) (es ++ [(o, s)])) :
    Traces exec mid R (.op o k) es :=
  fun _ => ⟨hmid, fun s _ _ r s' he => ⟨trivial, trivial, h s r s' he s'⟩⟩

theorem Traces.imp {R' : α → List (Op × σ) → Prop} (hR : ∀ a es, R a es → R' a es) {p : Prog Op Res α}
    (h : Traces exec mid R p es) : Traces exec mid R' p es :=
  fun s => (h s).imp fun a es _ => hR a es

theorem Traces.bind {R' : β → List (Op × σ) → Prop} {p : Prog Op Res α} {f : α → Prog Op Res β}
    (h : Traces exec mid (fun a es => Traces exec mid R' (f a) es) p es) :
    Traces exec mid R' (p.bind f) es :=
  fun s => Ok.bind (fun _ => trivial) ((h s).imp fun _ _ s h => h s)

theorem Traces.of_only {Q : Op → Prop} (P : List (Op × σ) → Prop) (hmid : ∀ es, P es → mid es)
    (hop : ∀ o, Q o → ∀ es s, P es → P (es ++ [(o, s)])) (hR : ∀ a es, P es → R a es) {p : Prog Op Res α}
    (hp : p.Only Q) (h : P es) : Traces exec mid R p es :=
  fun _ => Ok.of_only (fun es _ => P es) (fun es _ => hmid es) (fun _ _ _ h _ => h)
    (fun o ho es s _ _ h _ _ => ⟨trivial, trivial, hop o ho es s h⟩) (fun a es _ => hR a es) hp h

/-- What holds of every program all along holds of what each did in a run. -/
theorem own_traces {mid : ι → List (Op × σ) → Prop} {progs : ι → Prog Op Res α}
    (h : ∀ i, Traces exec (mid i) (fun _ => mid i) (progs i) []) (s : σ) (sched : List ι) (i : ι) :
    mid i (own i (Runs.log (Atomic.step exec) (start s progs) sched)) := by
  have hok : AllOk exec (fun _ => True) (fun _ _ _ => True) (fun _ _ _ => True) mid (fun i _ es _ => mid i es)
      (Runs.final (Atomic.step exec) (start s progs) sched) (Runs.log (Atomic.step exec) (start s progs) sched) :=
    interleaved (fun _ _ => trivial) (fun _ _ _ _ _ _ => trivial) (fun _ _ _ _ _ _ => trivial) trivial
      (fun i => h i s) sched
  cases hp : (Runs.final (Atomic.step exec) (start s progs) sched).threads i with
  | none => exact hok.2.1 i hp
  | some p =>
    cases p with
    | ret a => exact hok.2.2 i _ hp s trivial
    | op o k => exact (hok.2.2 i _ hp).1

end Traces

end Atomic
