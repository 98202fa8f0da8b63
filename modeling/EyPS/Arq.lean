/-
Selective repeat over a channel that loses, repeats and reorders what it carries: a sender
numbers items and keeps each until it hears that it arrived, a receiver collects items by
number and delivers them in order.

The channel is the set of all that was ever put on it, so a message may arrive at any time,
any number of times, or never.
-/
import Mathlib.Data.Set.Insert
import Mathlib.Logic.Relation

namespace Arq

variable {α : Type*}

/-- What the two sides put on the channel: an item under its number, the report that a
number arrived, and the report that all numbers below one were delivered. -/
inductive Msg (α : Type*)
  | data (n : ℕ) (x : α)
  | ack (n : ℕ)
  | una (n : ℕ)

/-- Both sides and the channel. `log` is every item numbered so far, an item's number
being its place. -/
structure Link (α : Type*) where
  log : List α
  kept : Set ℕ
  delivered : List α
  received : Set (ℕ × α)
  wire : Set (Msg α)

namespace Link

def init : Link α := ⟨[], ∅, [], ∅, ∅⟩

/-- Some item arrived under the number `n`. -/
def Arrived (l : Link α) (n : ℕ) : Prop := ∃ x, (n, x) ∈ l.received

/-- A message is true of the two sides. -/
def Tells (l : Link α) : Msg α → Prop
  | .data n x => l.log[n]? = some x
  | .ack n => l.Arrived n
  | .una n => n ≤ l.delivered.length

/-- The channel carries a report that `n` arrived. -/
def Reported (l : Link α) (n : ℕ) : Prop := .ack n ∈ l.wire ∨ ∃ m, .una m ∈ l.wire ∧ n < m

end Link

/-- One step of either side. Only true messages are sent, only what comes over the channel is
received, and only what is reported is forgotten. -/
inductive Step : Link α → Link α → Prop
  | number (l : Link α) (x : α) :
    Step l { l with log := l.log ++ [x], kept := insert l.log.length l.kept }
  | say (l : Link α) (ms : Set (Msg α)) (h : ∀ m ∈ ms, l.Tells m) : Step l { l with wire := l.wire ∪ ms }
  | receive (l : Link α) (n : ℕ) (x : α) (h : .data n x ∈ l.wire) :
    Step l { l with received := insert (n, x) l.received }
  | deliver (l : Link α) (x : α) (h : (l.delivered.length, x) ∈ l.received) :
    Step l { l with delivered := l.delivered ++ [x] }
  | forget (l : Link α) (kept : Set ℕ) (hk : kept ⊆ l.kept) (h : ∀ n ∈ l.kept, n ∉ kept → l.Reported n) :
    Step l { l with kept }

/-- Any number of steps. -/
abbrev Steps : Link α → Link α → Prop := Relation.ReflTransGen Step

/-! ## What every step keeps -/

theorem getElem?_concat_of_some {log : List α} {n : ℕ} {x y : α} (h : log[n]? = some x) :
    (log ++ [y])[n]? = some x := by
  rw [List.getElem?_append_left (List.getElem?_eq_some_iff.mp h).1, h]

/-- What is true of the two sides stays true. -/
theorem Step.tells {l l' : Link α} (hs : Step l l') {m : Msg α} (h : l.Tells m) : l'.Tells m := by
  cases hs with
  | number x =>
    cases m with
    | data n y => exact getElem?_concat_of_some h
    | ack n => exact h
    | una n => exact h
  | say ms _ => cases m <;> exact h
  | receive n x _ =>
    cases m with
    | data k y => exact h
    | ack k =>
      obtain ⟨y, hy⟩ := h
      exact ⟨y, Set.mem_insert_of_mem _ hy⟩
    | una k => exact h
  | deliver x _ =>
    cases m with
    | data n y => exact h
    | ack n => exact h
    | una n =>
      refine Nat.le_trans h ?_
      rw [List.length_append]
      exact Nat.le_add_right _ _
  | forget kept _ _ => cases m <;> exact h

theorem Steps.tells {l l' : Link α} (hs : Steps l l') {m : Msg α} (h : l.Tells m) : l'.Tells m := by
  induction hs with
  | refl => exact h
  | tail _ hstep ih => exact hstep.tells ih

/-- The channel forgets nothing. -/
theorem Steps.wire_subset {l l' : Link α} (hs : Steps l l') : l.wire ⊆ l'.wire := by
  induction hs with
  | refl => exact subset_rfl
  | tail _ hstep ih =>
    refine ih.trans ?_
    cases hstep with
    | say ms _ => exact Set.subset_union_left
    | _ => exact subset_rfl

/-- All on the channel is true, all that arrived is of the log, what is delivered is the log's
beginning and has arrived, and so has all that the sender no longer keeps. -/
structure Link.Inv (l : Link α) : Prop where
  wire : ∀ m ∈ l.wire, l.Tells m
  received : ∀ n x, (n, x) ∈ l.received → l.log[n]? = some x
  delivered : l.delivered <+: l.log
  arrived : ∀ n < l.delivered.length, l.Arrived n
  kept : ∀ n < l.log.length, n ∉ l.kept → l.Arrived n

theorem Link.Inv.init : (Link.init : Link α).Inv where
  wire := by simp [Link.init]
  received := by simp [Link.init]
  delivered := List.prefix_refl []
  arrived := by simp [Link.init]
  kept := by simp [Link.init]

/-- A report is true. -/
theorem Link.Inv.reported {l : Link α} (h : l.Inv) {n : ℕ} (hn : l.Reported n) : l.Arrived n := by
  rcases hn with hn | ⟨m, hm, hnm⟩
  · exact h.wire _ hn
  · exact h.arrived n (Nat.lt_of_lt_of_le hnm (h.wire _ hm))

/-- The next item in order extends the delivered ones. -/
theorem prefix_concat {delivered log : List α} {x : α} (h : delivered <+: log)
    (hx : log[delivered.length]? = some x) : delivered ++ [x] <+: log := by
  obtain ⟨rest, rfl⟩ := h
  rw [List.getElem?_append_right (Nat.le_refl _), Nat.sub_self] at hx
  cases rest with
  | nil => simp at hx
  | cons y rest =>
    obtain rfl : y = x := by simpa using hx
    exact ⟨rest, by simp⟩

theorem Link.Inv.step {l l' : Link α} (h : l.Inv) (hs : Step l l') : l'.Inv := by
  have hold : ∀ m ∈ l.wire, l'.Tells m := fun m hm => hs.tells (h.wire m hm)
  cases hs with
  | number x =>
    refine ⟨hold, ?_, ?_, h.arrived, ?_⟩
    · exact fun n y hy => getElem?_concat_of_some (h.received n y hy)
    · exact h.delivered.trans (List.prefix_append _ _)
    · intro n hn hnk
      rw [Set.mem_insert_iff, not_or] at hnk
      rw [List.length_append, List.length_singleton] at hn
      exact h.kept n (by omega) hnk.2
  | say ms hms =>
    refine ⟨fun m hm => ?_, h.received, h.delivered, h.arrived, h.kept⟩
    rcases hm with hm | hm
    · exact hold m hm
    · exact (Step.say l ms hms).tells (hms m hm)
  | receive n x hx =>
    have hmono : ∀ m, l.Arrived m → ∃ y, (m, y) ∈ insert (n, x) l.received :=
      fun m ⟨y, hy⟩ => ⟨y, Set.mem_insert_of_mem _ hy⟩
    refine ⟨hold, fun m y hm => ?_, h.delivered, fun m hm => hmono m (h.arrived m hm),
      fun m hm hk => hmono m (h.kept m hm hk)⟩
    rcases hm with hm | hm
    · cases hm
      exact h.wire _ hx
    · exact h.received m y hm
  | deliver x hx =>
    refine ⟨hold, h.received, prefix_concat h.delivered (h.received _ _ hx), fun n hn => ?_, h.kept⟩
    rw [List.length_append, List.length_singleton] at hn
    rcases Nat.lt_succ_iff_lt_or_eq.mp hn with hn | rfl
    · exact h.arrived n hn
    · exact ⟨x, hx⟩
  | forget kept hk hr =>
    refine ⟨hold, h.received, h.delivered, h.arrived, fun n hn hnk => ?_⟩
    by_cases hold : n ∈ l.kept
    · exact h.reported (hr n hold hnk)
    · exact h.kept n hn hold

theorem Link.Inv.steps {l l' : Link α} (h : l.Inv) (hs : Steps l l') : l'.Inv := by
  induction hs with
  | refl => exact h
  | tail _ hstep ih => exact ih.step hstep

/-- Of what has arrived the delivered items are the beginning, so the first number not yet
delivered is past the log or has arrived only ahead of its turn. -/
theorem Link.Inv.delivered_eq_log {l : Link α} (h : l.Inv) (hlen : l.log.length ≤ l.delivered.length) :
    l.delivered = l.log :=
  h.delivered.eq_of_length_le hlen

end Arq
