/-
The idle timeout: `Background` ends a session when `time(0) - lastPacketTime` is above
20, with the time of the last `Input` in a `long`. Where `long` has 32 bits a time from
2038 on is stored as one of 1901 and after, and the first test behind it is an end.

The difference is taken in 64 bits, the width of `time_t`; one that does not fit is
undefined.
-/
import EyPS.Kcp
import EyPS.Runs

namespace EyPS

open Runs

/-- `a - b` of two signed 64-bit numbers, where it is defined. -/
def subTime (a b : Int) : Option Int :=
  if -2 ^ 63 ≤ a - b ∧ a - b < 2 ^ 63 then some (a - b) else none

/-- The exit test of `Background`, with the width of its difference. -/
def Kcp.expired (now : Int) (k : Kcp) : Option Bool :=
  if k.state ≠ .connected then some true
  else (subTime now k.lastPacketTime).map fun idle => decide (20 < idle)

theorem expired_eq_idle {now : Int} {k : Kcp} {b : Bool} (h : k.expired now = some b) : b = k.idle now := by
  unfold Kcp.expired at h
  unfold Kcp.idle
  split at h
  next hs => simpa [hs] using h.symm
  next hs =>
    unfold subTime at h
    split at h
    · simpa [not_not.mp hs] using h.symm
    · cases h

/-! ## Sessions in time -/

/-- What happens to a session: a datagram, which calls `Input`, or an iteration of
`Background`, each at a value of `time(0)`. -/
inductive TimedAct
  | input (now : Int) (sendOk : Bool) (buffer : Bytes)
  | check (now : Int)

def TimedAct.now : TimedAct → Int
  | .input now _ _ => now
  | .check now => now

/-- A session, when `Input` was called last, and the last value of the clock. -/
structure TimedSession where
  kcp : Kcp
  lastInput : Int
  clock : Int
  ended : Bool

/-- The session that a handshake opens: `Input` accepted it at `now`. -/
def TimedSession.accepted (P : Platform) (ep : Endpoint) (now : Int) : TimedSession where
  kcp := .accepted P ep now
  lastInput := now
  clock := now
  ended := false

/-- An iteration of `Background`, and its decision: none where the difference overflows. -/
structure IdleCheck where
  lastInput : Int
  now : Int
  ends : Option Bool
  deriving DecidableEq

/-- The session has been idle for more than 20 seconds, and that is what decides. -/
def IdleCheck.Exact (e : IdleCheck) : Prop := e.ends = some (decide (20 < e.now - e.lastInput))

/-- The next thing to happen; a session that has ended is deleted. -/
def timedStep (P : Platform) (s : TimedSession) (a : TimedAct) : TimedSession × List IdleCheck :=
  if s.ended then (s, [])
  else match a with
    | .input now sendOk buffer =>
      match s.kcp.input P now sendOk buffer with
      | .ok (_, k, _) => ({ s with kcp := k, lastInput := now, clock := now }, [])
      | .error _ => ({ s with ended := true }, [])
    | .check now =>
      ({ s with clock := now, ended := s.kcp.expired now ≠ some false },
        [⟨s.lastInput, now, s.kcp.expired now⟩])

/-- A non-decreasing clock of 64 bits. -/
def ClockGoesOn (s : TimedSession) (a : TimedAct) : Prop := s.clock ≤ a.now ∧ a.now < 2 ^ 63

/-- At a check, the time of the last `Input` is one that `long` holds, or it is long past
and the difference is one that 64 bits hold. -/
def CheckFits (P : Platform) (s : TimedSession) (a : TimedAct) : Prop :=
  ∀ now, a = .check now → s.ended = false →
    s.lastInput < 2 ^ (P.long - 1) ∨ 20 < now - s.lastInput ∧ now - toLong P s.lastInput < 2 ^ 63

/-- What every state of a run has: the field is the time of the last `Input`, narrowed. -/
structure Timekeeping (P : Platform) (s : TimedSession) : Prop where
  state : s.kcp.state = .connected
  stored : s.kcp.lastPacketTime = toLong P s.lastInput
  nonneg : 0 ≤ s.lastInput
  past : s.lastInput ≤ s.clock
  clock : s.clock < 2 ^ 63

section Step

variable {P : Platform} {s : TimedSession}

/-- A time that a `long` cannot hold is stored as one at least `2 ^ 32` seconds before. -/
theorem toLong_cases {t : Int} (h0 : 0 ≤ t) (h : t < 2 ^ 63) :
    t < 2 ^ (P.long - 1) ∧ toLong P t = t ∨ 2 ^ (P.long - 1) ≤ t ∧ toLong P t ≤ t - 2 ^ 32 := by
  unfold toLong
  rw [Int.bmod_def]
  rcases P.long_eq with hl | hl
  · rw [hl]
    split <;> omega
  · rw [hl]
    split <;> omega

theorem Timekeeping.accepted (ep : Endpoint) {t : Int} (h0 : 0 ≤ t) (h : t < 2 ^ 63) :
    Timekeeping P (.accepted P ep t) := ⟨rfl, rfl, h0, Int.le_refl _, h⟩

theorem Timekeeping.step (hs : Timekeeping P s) {a : TimedAct} (ha : ClockGoesOn s a) :
    Timekeeping P (timedStep P s a).1 := by
  unfold timedStep
  split
  · exact hs
  · cases a with
    | check now =>
      have hpast := hs.past
      exact ⟨hs.state, hs.stored, hs.nonneg, Int.le_trans hpast ha.1, ha.2⟩
    | input now sendOk buffer =>
      have hnow : 0 ≤ now := Int.le_trans (Int.le_trans hs.nonneg hs.past) ha.1
      cases hk : s.kcp.kcp with
      | none =>
        have hinput : s.kcp.input P now sendOk buffer = .error .nullPointer := by
          simp [Kcp.input, Kcp.inputCalls, Except.map, hs.state, hk]
        simp only [hinput]
        exact ⟨hs.state, hs.stored, hs.nonneg, hs.past, hs.clock⟩
      | some cb =>
        simp only [Kcp.input_connected hs.state hk]
        exact ⟨hs.state, rfl, hnow, Int.le_refl _, ha.2⟩

/-- **One check** decides right exactly if it fits. -/
theorem checked_exact_iff (hs : Timekeeping P s) {a : TimedAct} (ha : ClockGoesOn s a) :
    (∀ e ∈ (timedStep P s a).2, e.Exact) ↔ CheckFits P s a := by
  unfold timedStep CheckFits
  cases a with
  | input now sendOk buffer =>
    refine iff_of_true (fun e he => ?_) (fun now h => by cases h)
    split at he
    · cases he
    · simp only at he
      cases hinput : s.kcp.input P now sendOk buffer with
      | ok x =>
        rw [hinput] at he
        cases he
      | error err =>
        rw [hinput] at he
        cases he
  | check now =>
    cases hended : s.ended with
    | true => simp
    | false =>
      obtain ⟨hclock, hnow⟩ : s.clock ≤ now ∧ now < 2 ^ 63 := ha
      have hnonneg := hs.nonneg
      have hpast := hs.past
      have hexpired : s.kcp.expired now =
          (subTime now (toLong P s.lastInput)).map fun idle => decide (20 < idle) := by
        rw [Kcp.expired, if_neg (by simp [hs.state]), hs.stored]
      have hlong := toLong_cases (P := P) hnonneg (by omega)
      have hfits : (∀ now', TimedAct.check now = .check now' → false = false →
          s.lastInput < 2 ^ (P.long - 1) ∨ 20 < now' - s.lastInput ∧ now' - toLong P s.lastInput < 2 ^ 63) ↔
          (s.lastInput < 2 ^ (P.long - 1) ∨ 20 < now - s.lastInput ∧ now - toLong P s.lastInput < 2 ^ 63) := by
        refine ⟨fun h => h now rfl rfl, fun h now' he _ => ?_⟩
        cases he
        exact h
      rw [hfits]
      simp only [Bool.false_eq_true, if_false, List.forall_mem_singleton, IdleCheck.Exact, hexpired, subTime]
      generalize toLong P s.lastInput = stored at hlong ⊢
      split
      next hdef =>
        rw [Option.map_some, Option.some.injEq, decide_eq_decide]
        omega
      next hundef =>
        refine iff_of_false (by simp) fun h => ?_
        omega

end Step

/-- **The idle timeout**: over any run of datagrams and checks from the time a session is
accepted, a check ends the session if and only if more than 20 seconds have passed since
the last `Input`, exactly in the runs whose checks fit. -/
theorem idle_timeout_iff (P : Platform) (ep : Endpoint) (start : Int) (acts : List TimedAct) (h0 : 0 ≤ start)
    (h : start < 2 ^ 63) (hclock : AllSteps (timedStep P) ClockGoesOn (.accepted P ep start) acts) :
    (∀ e ∈ log (timedStep P) (.accepted P ep start) acts, e.Exact) ↔
      AllSteps (timedStep P) (CheckFits P) (.accepted P ep start) acts := by
  rw [forall_log_iff]
  exact allSteps_congr_within (Timekeeping P) (fun _ _ hs ha => hs.step ha)
    (fun _ _ hs ha => checked_exact_iff hs ha) (.accepted ep h0 h) hclock

/-- A datagram, a check 20 seconds after it, and one 21 seconds after it. -/
theorem idle_timeout_sample :
    let P : Platform := ⟨64, 32, .inr rfl, .inl rfl⟩
    ∀ e ∈ log (timedStep P) (.accepted P ⟨0, 0⟩ 1000) [.input 1010 true [], .check 1030, .check 1031],
      e.Exact :=
  (idle_timeout_iff ⟨64, 32, .inr rfl, .inl rfl⟩ ⟨0, 0⟩ 1000 [.input 1010 true [], .check 1030, .check 1031]
    (by decide) (by decide) (by
      simp [ClockGoesOn, TimedAct.now, timedStep, TimedSession.accepted, Kcp.accepted, Kcp.initializeCb,
        Kcp.input, Kcp.inputCalls, Except.map, Kcp.expired, subTime, toLong, Int.bmod_def])).mpr (by
      simp [CheckFits, timedStep, TimedSession.accepted, Kcp.accepted, Kcp.initializeCb, Kcp.input,
        Kcp.inputCalls, Except.map, Kcp.expired, subTime, toLong, Int.bmod_def])

/-- A `long` of 32 bits in 2038: the check of the same second ends the session. -/
theorem idle_timeout_2038 :
    let P : Platform := ⟨64, 32, .inr rfl, .inl rfl⟩
    AllSteps (timedStep P) ClockGoesOn (.accepted P ⟨0, 0⟩ 2147483648) [.check 2147483648] ∧
      log (timedStep P) (.accepted P ⟨0, 0⟩ 2147483648) [.check 2147483648] =
        [⟨2147483648, 2147483648, some true⟩] ∧
      ¬ IdleCheck.Exact ⟨2147483648, 2147483648, some true⟩ := by
  refine ⟨?_, rfl, ?_⟩
  · simp [ClockGoesOn, TimedAct.now, TimedSession.accepted]
  · simp [IdleCheck.Exact]

end EyPS
