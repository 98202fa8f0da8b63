/-
The progress of a session over whole runs of its packet handler thread: the
session state moves forward only, the token handler and then the login handler
run at most once, and the MT flag and key are there from the token handler on.
-/
import EyPS.PacketQueue

namespace EyPS

/-- The value of the enumerator. -/
def SessionState.ordinal : SessionState → Nat
  | .inactive => 0
  | .waitingForToken => 1
  | .waitingForLogin => 2
  | .pickingCharacter => 3
  | .active => 4

/-- The handlers a log says were run, in order, without the ping handler. -/
def sessionHandlers (l : List Event) : List PacketHandler :=
  l.filterMap fun
    | .dispatch _ (some .handlePingReq) => none
    | .dispatch _ handler => handler
    | .send _ => none

@[simp] theorem sessionHandlers_append (l m : List Event) :
    sessionHandlers (l ++ m) = sessionHandlers l ++ sessionHandlers m := List.filterMap_append

/-- Those that have run by the time a session is in this state. -/
def SessionState.ran : SessionState → List PacketHandler
  | .waitingForLogin => [.handlePlayerTokenReq]
  | .pickingCharacter => [.handlePlayerTokenReq, .handlePlayLoginReq]
  | .inactive | .waitingForToken | .active => []

variable {env : Env}

/-- A packet leaves the session state, or runs the handler that moves it on. -/
theorem Handled.moves {k : Kcp} {t : Turn} {w : Worker} {l : List Event} (h : Handled env k t w l) :
    k.sessionState.ordinal ≤ w.kcp.sessionState.ordinal ∧
      w.kcp.sessionState.ran = k.sessionState.ran ++ sessionHandlers l := by
  cases h with
  | rejected => exact ⟨Nat.le_refl _, by simp [sessionHandlers]⟩
  | ping => exact ⟨Nat.le_refl _, by simp [sessionHandlers]⟩
  | token _ _ hs => simp [hs, Kcp.tokenGiven, SessionState.ordinal, SessionState.ran, sessionHandlers]
  | login cs _ _ hs => simp [hs, Kcp.loggedIn, SessionState.ordinal, SessionState.ran, sessionHandlers]
  | missing => exact ⟨Nat.le_refl _, by simp [sessionHandlers]⟩

/-- So does a step of the two threads. -/
theorem queueStep_moves {w : Worker} (hp : Progress env w.kcp) (act : QueueAct) :
    Progress env (queueStep env w act).1.kcp ∧
      w.kcp.sessionState.ordinal ≤ (queueStep env w act).1.kcp.sessionState.ordinal ∧
      (queueStep env w act).1.kcp.sessionState.ran =
        w.kcp.sessionState.ran ++ sessionHandlers (queueStep env w act).2 := by
  cases act with
  | push packet => exact ⟨hp.setQueue _, Nat.le_refl _, by simp [queueStep, sessionHandlers]⟩
  | pass time =>
    rcases packetQueueHandler_cases hp time with ⟨hk, hl⟩ | ⟨packet, rest, -, hh⟩
    · rw [queueStep, hk, hl]
      exact ⟨hp, Nat.le_refl _, by simp [sessionHandlers]⟩
    · exact ⟨hh.progress (hp.setQueue rest), hh.moves⟩

/-- And a run of them. -/
theorem run_moves {w : Worker} (hp : Progress env w.kcp) (acts : List QueueAct) :
    Progress env (Runs.final (queueStep env) w acts).kcp ∧
      w.kcp.sessionState.ordinal ≤ (Runs.final (queueStep env) w acts).kcp.sessionState.ordinal ∧
      (Runs.final (queueStep env) w acts).kcp.sessionState.ran =
        w.kcp.sessionState.ran ++ sessionHandlers (Runs.log (queueStep env) w acts) := by
  induction acts generalizing w with
  | nil => exact ⟨hp, Nat.le_refl _, by simp [sessionHandlers]⟩
  | cons act acts ih =>
    obtain ⟨hp', hle, hran⟩ := queueStep_moves hp act
    obtain ⟨hp'', hle', hran'⟩ := ih hp'
    refine ⟨hp'', Nat.le_trans hle hle', ?_⟩
    rw [Runs.final_cons, hran', hran, Runs.log_cons, sessionHandlers_append, List.append_assoc]

/-- **Session progress.** Whatever packets arrive and whenever they are handled:
the state only moves forward, through the three states and no other; the
handlers run, pings apart, are the token handler and then the login handler, or
the first of them, or none; the MT flag and key are those of the state. -/
theorem session_progress (env : Env) (ep : Endpoint) (now : Int) (acts more : List QueueAct) :
    let start := Worker.start env.platform ep now
    let k := (Runs.final (queueStep env) start acts).kcp
    let k' := (Runs.final (queueStep env) start (acts ++ more)).kcp
    k.sessionState.ordinal ≤ k'.sessionState.ordinal ∧
    k.sessionState ∈ [.waitingForToken, .waitingForLogin, .pickingCharacter] ∧
    sessionHandlers (Runs.log (queueStep env) start acts) <+:
      [.handlePlayerTokenReq, .handlePlayLoginReq] ∧
    ((k.shouldUseMt = true ∧ k.mtKey = generateKey env.mt19937_64 0x123456789ABCDEF0) ↔
      k.sessionState ≠ .waitingForToken) ∧
    (k.sessionState = .waitingForToken → k.mtKey = [] ∧ k.shouldUseMt = false) := by
  intro start k k'
  obtain ⟨hp, -, hran⟩ := run_moves (Progress.start env ep now) acts
  have hran : k.sessionState.ran = sessionHandlers (Runs.log (queueStep env) start acts) := hran
  refine ⟨?_, ?_, ?_, ?_, fun hs => ?_⟩
  · obtain ⟨-, hle, -⟩ := run_moves hp more
    rwa [← Runs.final_append] at hle
  · rcases hp.state_cases with hs | hs | hs <;> simp [k, start, hs]
  · rw [← hran]
    rcases hp.state_cases with hs | hs | hs <;> simp [k, start, hs, SessionState.ran]
  · refine ⟨fun h hs => ?_, hp.key_of_ne⟩
    exact absurd hs (hp.key_ne_nil.mp (by rw [h.2]; exact generateKey_ne_nil _ _))
  · cases hp with
    | before _ hu hk => exact ⟨hk, hu⟩
    | after hs' => rcases hs' with hs' | hs' <;> exact absurd (hs.symm.trans hs') (by decide)

end EyPS
