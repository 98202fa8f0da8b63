/-
Account ids under concurrency: any number of calls of `getNextId`, their
database operations interleaved in any order.

A call reads whether there is a counter, reads its value, and writes: the
first counter, or the next value where the old one still stands. Nothing
looks at what the write did. As long as every call finds what it read
(`Current`), each value of the counter after the first is the id of one call
(`Allocated`); the first call that does not either throws or takes an id
that another has.
-/
import EyPS.Account

namespace EyPS

open Collection Atomic databaseHelper Runs

/-! ## Where a call stands -/

/-- The record of the collection `counters`. -/
def accountCounter (count : Int32) : CounterDoc := ⟨.ofBytes "Account".toUTF8.toList, count⟩

theorem accountCounter_inj {n m : Int32} (h : [accountCounter n] = [accountCounter m]) : n = m := by
  cases h
  rfl

/-- Before the update. -/
def updating (count : Int32) : Query Int32 := do
  Query.countersUpdate count (count + 1)
  return count + 1

/-- Before the read of the value. -/
def reading : Query Int32 := do
  match ← Query.countersFindOne with
  | none => return 100
  | some counter => updating counter.count

/-- Before the first counter is inserted. -/
def inserting : Query Int32 := do
  Query.countersInsertOne (accountCounter 100)
  return 100

/-- Before the test for a counter. -/
def checking : Query Int32 := do
  match ← Query.countersFindOne with
  | none => inserting
  | some _ => reading

/-- After its first read, which looks at nothing. -/
theorem getNextId_eq : getNextId = .op .countersFindOne fun _ => checking := rfl

theorem getNextId_within : getNextId.Within 4 := by
  have hupdating : ∀ count, (updating count).Within 1 := fun count _ => trivial
  have hreading : reading.Within 2 := by
    intro a
    cases a with
    | none => trivial
    | some counter => exact hupdating counter.count
  have hchecking : checking.Within 3 := by
    intro a
    cases a with
    | none => exact fun _ => trivial
    | some _ => exact hreading
  rw [getNextId_eq]
  exact fun _ => hchecking

/-! ## Every interleaving -/

/-- A program that a call may still have to run: what it is about to write on is
not ahead of the counter, and an id it returned is one of its values. -/
inductive Stands (base : Int) (counters : List CounterDoc) : Query Int32 → Prop
  | start : Stands base counters getNextId
  | checking : Stands base counters checking
  | inserting : Stands base counters inserting
  | reading {n : Int32} (hcounters : counters = [accountCounter n]) : Stands base counters reading
  | updating {count n : Int32} (hcounters : counters = [accountCounter n]) (hbase : base ≤ count.toInt)
    (hn : count.toInt ≤ n.toInt) : Stands base counters (updating count)
  | returned {id n : Int32} (hcounters : counters = [accountCounter n]) (hbase : base < id.toInt)
    (hn : id.toInt ≤ n.toInt) : Stands base counters (.ret id)

/-- An update of the counter is by one. -/
def Op.NoOverflow : Op → Prop
  | .countersUpdate count newCount => newCount.toInt = count.toInt + 1
  | _ => True

instance : (o : Op) → Decidable o.NoOverflow
  | .countersUpdate _ _ => inferInstanceAs (Decidable (_ = _))
  | .findOne _ | .find _ | .insertOne _ | .updateSessionKey _ _ | .updateToken _ _ | .countersFindOne
  | .countersInsertOne _ => isTrue trivial

section Interleaving

variable {ι : Type}

/-- One counter, whose values after `base` are the ids of one call each. -/
structure Allocated (base : Int) (c : Config Op Op.Res Int32 DB ι) : Prop where
  counters : c.shared.counters = [] ∧ base = 99 ∨ ∃ n, c.shared.counters = [accountCounter n] ∧ base ≤ n.toInt
  threads : ∀ i, ∃ p, c.threads i = some p ∧ Stands base c.shared.counters p
  covered : ∀ n, c.shared.counters = [accountCounter n] → ∀ id : Int32, base < id.toInt → id.toInt ≤ n.toInt →
    ∃ j, c.result j = some id
  distinct : ∀ i j id, c.result i = some id → c.result j = some id → i = j

/-- What the call is about to write on is what it read. -/
def Current (c : Config Op Op.Res Int32 DB ι) (i : ι) : Prop :=
  match c.threads i with
  | some (.op (.countersInsertOne _) _) => c.shared.counters = []
  | some (.op (.countersUpdate count _) _) => c.shared.counters.head?.map CounterDoc.count = some count
  | _ => True

/-- No update that is done overflows. -/
def NoOverflow (l : List (Done Op DB ι)) : Prop := ∀ d ∈ l, d.op.NoOverflow

namespace Allocated

variable {base : Int} {c : Config Op Op.Res Int32 DB ι} {i : ι}

theorem base_le (h : Allocated base c) {n : Int32} (hn : c.shared.counters = [accountCounter n]) :
    base ≤ n.toInt := by
  rcases h.counters with ⟨hnil, -⟩ | ⟨n', hn', hb⟩
  · rw [hnil] at hn
    cases hn
  · rwa [accountCounter_inj (hn'.symm.trans hn)] at hb

/-- Where the counter moves up, a call stands as it stood. -/
theorem stands_up {counters : List CounterDoc} {p : Query Int32} (hp : Stands base counters p) {n' : Int32}
    (hup : ∀ n, counters = [accountCounter n] → n.toInt ≤ n'.toInt) : Stands base [accountCounter n'] p := by
  cases hp with
  | start => exact .start
  | checking => exact .checking
  | inserting => exact .inserting
  | reading => exact .reading rfl
  | updating hcounters hbase hn => exact .updating rfl hbase (Int.le_trans hn (hup _ hcounters))
  | returned hcounters hbase hn => exact .returned rfl hbase (Int.le_trans hn (hup _ hcounters))

/-- An id that was returned is a value the counter has had. -/
theorem result_le (h : Allocated base c) {id : Int32} (hi : c.result i = some id) :
    ∃ n, c.shared.counters = [accountCounter n] ∧ id.toInt ≤ n.toInt := by
  obtain ⟨p, hthread, hp⟩ := h.threads i
  rw [Config.result_eq_some.mp hi, Option.some.injEq] at hthread
  subst hthread
  generalize hq : Prog.ret id = q at hp
  cases hp with
  | returned hcounters hbase hn =>
    cases hq
    exact ⟨_, hcounters, hn⟩
  | start | checking | inserting | reading | updating => cases hq

variable [DecidableEq ι]

/-- A read moves its call on and changes nothing else. -/
theorem read (h : Allocated base c) {o : Op} {k : o.Res → Query Int32} (hi : c.threads i = some (.op o k))
    {o' : Op} {k' : o'.Res → Query Int32} (hp : Stands base c.shared.counters (.op o' k')) :
    Allocated base ⟨c.shared, Function.update c.threads i (some (.op o' k'))⟩ := by
  have hresult : ∀ j, Config.result ⟨c.shared, Function.update c.threads i (some (.op o' k'))⟩ j = c.result j := by
    intro j
    by_cases hj : j = i
    · subst hj
      simp [Config.result, hi]
    · exact c.result_update_ne hj _ _
  refine ⟨h.counters, fun j => ?_, fun n hn id hb hid => ?_, fun i j id hi hj => ?_⟩
  · by_cases hj : j = i
    · subst hj
      exact ⟨_, Function.update_self _ _ _, hp⟩
    · obtain ⟨p, hthread, hp⟩ := h.threads j
      exact ⟨p, (Function.update_of_ne hj _ _).trans hthread, hp⟩
  · simp only [hresult]
    exact h.covered n hn id hb hid
  · rw [hresult] at hi hj
    exact h.distinct i j id hi hj

/-- A write of the next value is that call's id, and no other's. -/
theorem write (h : Allocated base c) {o : Op} {k : o.Res → Query Int32} (hi : c.threads i = some (.op o k))
    {n' : Int32} {db : DB} (hdb : db.counters = [accountCounter n'])
    (hempty : c.shared.counters = [] → n'.toInt = 100)
    (hnext : ∀ n, c.shared.counters = [accountCounter n] → n'.toInt = n.toInt + 1) :
    Allocated base ⟨db, Function.update c.threads i (some (.ret n'))⟩ := by
  have hbase : base < n'.toInt := by
    rcases h.counters with ⟨hnil, rfl⟩ | ⟨n, hn, hb⟩
    · rw [hempty hnil]
      decide
    · rw [hnext n hn]
      omega
  have hbefore : ∀ j id, c.result j = some id → id.toInt < n'.toInt := by
    intro j id hj
    obtain ⟨n, hn, hid⟩ := h.result_le hj
    rw [hnext n hn]
    omega
  have hrunning : ∀ j id, c.result j = some id → j ≠ i := by
    rintro j id hj rfl
    rw [Config.result_eq_some, hi] at hj
    cases hj
  refine ⟨.inr ⟨n', hdb, Int.le_of_lt hbase⟩, fun j => ?_, fun n hn id hb hid => ?_, fun j₁ j₂ id h₁ h₂ => ?_⟩
  · by_cases hj : j = i
    · subst hj
      exact ⟨_, Function.update_self _ _ _, .returned hdb hbase (Int.le_refl _)⟩
    · obtain ⟨p, hthread, hp⟩ := h.threads j
      refine ⟨p, (Function.update_of_ne hj _ _).trans hthread, ?_⟩
      rw [show Config.shared ⟨db, _⟩ = db from rfl, hdb]
      exact stands_up hp fun n hn => by rw [hnext n hn]; omega
  · obtain rfl : n' = n := accountCounter_inj (hdb.symm.trans hn)
    by_cases hlast : id.toInt = n'.toInt
    · exact ⟨i, by rw [Int32.toInt_inj.mp hlast, Config.result_update_self]⟩
    · rcases h.counters with ⟨hnil, rfl⟩ | ⟨n, hn, -⟩
      · have := hempty hnil
        omega
      · have := hnext n hn
        obtain ⟨j, hj⟩ := h.covered n hn id hb (by omega)
        exact ⟨j, (c.result_update_ne (hrunning j id hj) _ _).trans hj⟩
  · by_cases hj₁ : j₁ = i
    · by_cases hj₂ : j₂ = i
      · exact hj₁.trans hj₂.symm
      · subst hj₁
        rw [Config.result_update_self, Option.some.injEq] at h₁
        rw [c.result_update_ne hj₂, ← h₁] at h₂
        exact absurd (hbefore j₂ n' h₂) (Int.lt_irrefl _)
    · rw [c.result_update_ne hj₁] at h₁
      by_cases hj₂ : j₂ = i
      · subst hj₂
        rw [Config.result_update_self, Option.some.injEq] at h₂
        rw [← h₂] at h₁
        exact absurd (hbefore j₁ n' h₁) (Int.lt_irrefl _)
      · rw [c.result_update_ne hj₂] at h₂
        exact h.distinct j₁ j₂ id h₁ h₂

/-- What a call that finds what it read does. -/
theorem step (h : Allocated base c) (hcurrent : Current c i) (hover : NoOverflow (step Op.exec c i).2) :
    Allocated base (step Op.exec c i).1 := by
  obtain ⟨p, hthread, hp⟩ := h.threads i
  unfold Current at hcurrent
  rw [hthread] at hcurrent
  cases hp with
  | start =>
    rw [step_op Op.exec (o := .countersFindOne) hthread rfl]
    exact h.read hthread .checking
  | checking =>
    rw [step_op Op.exec (o := .countersFindOne) hthread rfl]
    rcases h.counters with ⟨hnil, -⟩ | ⟨n, hn, -⟩
    · rw [hnil]
      exact h.read hthread .inserting
    · rw [hn]
      exact h.read hthread (.reading hn)
  | @reading n hn =>
    rw [step_op Op.exec (o := .countersFindOne) hthread rfl, hn]
    exact h.read hthread (.updating hn (h.base_le hn) (Int.le_refl _))
  | inserting =>
    have hnil : c.shared.counters = [] := hcurrent
    have he : Op.exec (.countersInsertOne (accountCounter 100)) c.shared =
        some ((), { c.shared with counters := [accountCounter 100] }) := by
      simp only [Op.exec, hnil, List.any_nil, Bool.false_eq_true, if_false]
      rfl
    rw [step_op Op.exec hthread he]
    exact h.write hthread rfl (fun _ => rfl) fun n hn => by rw [hnil] at hn; cases hn
  | @updating count n hn _ _ =>
    have hcount : c.shared.counters.head?.map CounterDoc.count = some count := hcurrent
    rw [hn] at hcount
    obtain rfl : n = count := Option.some.inj hcount
    have he : Op.exec (.countersUpdate n (n + 1)) c.shared =
        some ((), { c.shared with counters := [accountCounter (n + 1)] }) := by
      simp only [Op.exec, hn, updateFirst_cons, accountCounter, decide_true, if_true]
      rfl
    rw [step_op Op.exec hthread he] at hover ⊢
    have hnext : (n + 1).toInt = n.toInt + 1 := hover _ List.mem_cons_self
    refine h.write hthread rfl (fun hnil => by rw [hn] at hnil; cases hnil) fun n' hn' => ?_
    rw [accountCounter_inj (hn'.symm.trans hn), hnext]
  | returned =>
    rw [step_ret Op.exec hthread]
    exact h

/-- A call that does not find what it read throws, or takes the id of another. -/
theorem current (h : Allocated base c) (hover : NoOverflow (Atomic.step Op.exec c i).2)
    (hthrown : (Atomic.step Op.exec c i).1.threads i ≠ none)
    (hdistinct : ∀ j k id, (Atomic.step Op.exec c i).1.result j = some id →
      (Atomic.step Op.exec c i).1.result k = some id → j = k) : Current c i := by
  obtain ⟨p, hthread, hp⟩ := h.threads i
  unfold Current
  rw [hthread]
  cases hp with
  | start | checking | reading | returned => trivial
  | inserting =>
    rcases h.counters with ⟨hnil, -⟩ | ⟨n, hn, -⟩
    · exact hnil
    · have he : Op.exec (.countersInsertOne (accountCounter 100)) c.shared = none := by
        simp only [Op.exec, hn, accountCounter, List.any_cons, decide_true, Bool.true_or, if_true]
      rw [step_throw Op.exec hthread he] at hthrown
      exact absurd (Function.update_self i none c.threads) hthrown
  | @updating count n hn hbase hle =>
    show c.shared.counters.head?.map CounterDoc.count = some count
    rw [hn]
    refine congrArg some (of_not_not fun hne => ?_)
    have hlt : count.toInt ≠ n.toInt := fun he => hne (Int32.toInt_inj.mp he).symm
    rw [step_op Op.exec (o := .countersUpdate count (count + 1)) hthread rfl] at hover hdistinct
    have hnext : (count + 1).toInt = count.toInt + 1 := hover _ List.mem_cons_self
    obtain ⟨j, hj⟩ := h.covered n hn (count + 1) (by omega) (by omega)
    have hji : j ≠ i := by
      rintro rfl
      rw [Config.result_eq_some, hthread] at hj
      cases hj
    refine hji (hdistinct j i (count + 1) ?_ (Config.result_update_self _ _ _ _))
    exact (c.result_update_ne hji _ _).trans hj

end Allocated

variable [DecidableEq ι]

abbrev allocations (db : DB) (sched : List ι) : Config Op Op.Res Int32 DB ι :=
  final (step Op.exec) (start db fun _ => getNextId) sched

abbrev allocationLog (db : DB) (sched : List ι) : List (Done Op DB ι) :=
  log (step Op.exec) (start db fun _ => getNextId) sched

/-- No call threw, every call that had its four turns returned, and no two
returned the same id. -/
structure DistinctIds (db : DB) (sched : List ι) : Prop where
  not_thrown : ∀ i, (allocations db sched).threads i ≠ none
  returned : ∀ i, 4 ≤ sched.count i → ∃ id, (allocations db sched).result i = some id
  distinct : ∀ i j id, (allocations db sched).result i = some id → (allocations db sched).result j = some id → i = j

/-- `counters` empty, or with the one record that `getNextId` makes. -/
def DB.Initialised (db : DB) : Prop := db.counters = [] ∨ ∃ n, db.counters = [accountCounter n]

variable {db : DB} {sched : List ι}

theorem allocated_run (hdb : db.Initialised) (hover : NoOverflow (allocationLog db sched))
    (hcurrent : AllSteps (step Op.exec) Current (start db fun _ => getNextId) sched) :
    ∃ base, Allocated base (allocations db sched) := by
  have hstart : ∃ base, Allocated base (start db fun _ : ι => getNextId) := by
    have hthreads : ∀ base, ∀ i : ι, ∃ p, (start db fun _ : ι => getNextId).threads i = some p ∧
        Stands base db.counters p := fun base i => ⟨getNextId, rfl, .start⟩
    have hnone : ∀ (i : ι) id, (start db fun _ : ι => getNextId).result i ≠ some id := by
      intro i id h
      cases Config.result_eq_some.mp h
    rcases hdb with hnil | ⟨n, hn⟩
    · refine ⟨99, .inl ⟨hnil, rfl⟩, hthreads _, fun n hn => ?_, fun i j id hi => absurd hi (hnone i id)⟩
      have hn : db.counters = [accountCounter n] := hn
      rw [hnil] at hn
      cases hn
    · refine ⟨n.toInt, .inr ⟨n, hn, Int.le_refl _⟩, hthreads _, fun n' hn' id hb hid => ?_,
        fun i j id hi => absurd hi (hnone i id)⟩
      rw [accountCounter_inj (hn'.symm.trans hn)] at hid
      omega
  obtain ⟨base, hstart⟩ := hstart
  refine ⟨base, inv_log (fun c l => NoOverflow l → Allocated base c) (fun c i l h hi hover => ?_)
    (l := []) (fun _ => hstart) hcurrent hover⟩
  have hover := List.forall_mem_append.mp hover
  exact (h hover.1).step hi hover.2

/-- Up to the first call that does not find what it read, and there. -/
theorem current_of_distinct (hdb : db.Initialised) (hover : NoOverflow (allocationLog db sched))
    (hthrown : ∀ i, (allocations db sched).threads i ≠ none)
    (hdistinct : ∀ i j id, (allocations db sched).result i = some id → (allocations db sched).result j = some id →
      i = j) :
    AllSteps (step Op.exec) Current (start db fun _ => getNextId) sched := by
  induction sched using List.reverseRecOn with
  | nil => trivial
  | append_singleton sched i ih =>
    rw [allocations, final_concat] at hthrown hdistinct
    rw [allocationLog, log_concat] at hover
    have hover' := List.forall_mem_append.mp hover
    have hcurrent := ih hover'.1 (fun j hj => hthrown j (thrown_step Op.exec hj i))
      fun j k id hj hk => hdistinct j k id (result_step Op.exec hj i) (result_step Op.exec hk i)
    refine allSteps_append.mpr ⟨hcurrent, ?_, trivial⟩
    obtain ⟨base, hall⟩ := allocated_run hdb hover'.1 hcurrent
    exact hall.current hover'.2 (hthrown i) hdistinct

/-- **Account ids are unique** in exactly the runs in which every call finds what
it read. -/
theorem distinctIds_iff (hdb : db.Initialised) (hover : NoOverflow (allocationLog db sched)) :
    DistinctIds db sched ↔ AllSteps (step Op.exec) Current (start db fun _ => getNextId) sched := by
  constructor
  · intro h
    exact current_of_distinct hdb hover h.not_thrown h.distinct
  · intro hcurrent
    obtain ⟨base, hall⟩ := allocated_run hdb hover hcurrent
    have hthrown : ∀ i, (allocations db sched).threads i ≠ none := by
      intro i hi
      obtain ⟨p, hp, -⟩ := hall.threads i
      rw [hi] at hp
      cases hp
    refine ⟨hthrown, fun i hi => ?_, hall.distinct⟩
    exact (finishes Op.exec sched (c := start db fun _ => getNextId) rfl getNextId_within hi).resolve_left
      (hthrown i)

end Interleaving

/-! ### Two calls at a time -/

/-- One after the other, from the empty database. -/
theorem distinctIds_iff_sample :
    let sched := [false, false, false, true, true, true, true]
    DistinctIds .empty sched ↔ AllSteps (step Op.exec) Current (start .empty fun _ => getNextId) sched :=
  distinctIds_iff (.inl rfl) (by unfold NoOverflow; decide +kernel)

/-- Both read the counter at 100, and both return 101. At the first use both find
no counter, and the second call throws. -/
theorem concurrent_calls_share_id :
    let db : DB := ⟨[], [accountCounter 100]⟩
    let sched := [false, false, false, true, true, true, false, true]
    let sched' := [false, false, true, true, false, true]
    NoOverflow (allocationLog db sched) ∧ (allocations db sched).result false = some 101 ∧
      (allocations db sched).result true = some 101 ∧ ¬ DistinctIds db sched ∧
      (allocations .empty sched').threads true = none ∧ ¬ DistinctIds .empty sched' := by
  intro db sched sched'
  have hfalse : (allocations db sched).result false = some 101 := by decide +kernel
  have htrue : (allocations db sched).result true = some 101 := by decide +kernel
  have hthrown : (allocations .empty sched').threads true = none :=
    Option.isNone_iff_eq_none.mp (by decide +kernel)
  refine ⟨by unfold NoOverflow; decide +kernel, hfalse, htrue, fun h => ?_, hthrown, fun h => ?_⟩
  · exact Bool.false_ne_true (h.distinct false true 101 hfalse htrue)
  · exact h.not_thrown true hthrown

end EyPS
