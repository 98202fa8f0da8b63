/-
The two statements of `HandlePlayerTokenReq::handler` that switch the inbound
key, one at a time. `SetUseMT(true)` stands before `GenerateMTKey`, and
`ParsePacket` is on another thread: between the two the flag says to decrypt
with an MT key that is still empty.

The handler runs in `EyPS.Handlers` are cut at their effects; what a handler
does between two of them the client does not see. `ParsePacket` may run
at every such place.
-/
import EyPS.PacketQueue

namespace EyPS

/-! ## Statements and datagrams, interleaved -/

/-- Whether the process is still there. -/
def ThreadState.alive : ThreadState → Bool
  | .faulted _ => false
  | _ => true

/-- A connection, and what its packet handler thread still has to execute of
the handler it is in. -/
structure MidHandler where
  worker : Worker
  current : Option (PacketHandler × List Act)

inductive MidAct
  /-- outside a handler: the loop takes the next packet -/
  | take (time : Nat → UInt64)
  /-- the next statement of the handler, its return after the last -/
  | statement
  /-- `ParsePacket`, with this message for the client -/
  | parse (message : Bytes)

/-- `ParsePacket` called `Xor`. -/
structure XorCall where
  packet : Bytes
  key : Bytes
  deriving DecidableEq

/-- The body of the inner loop, up to the first statement of a handler. -/
def startHandler (env : Env) (w : Worker) (turn : Turn) : MidHandler :=
  if admitted env.ids w.kcp.sessionState turn.packet.packetId then
    match packets env.ids turn.packet.packetId with
    | none => ⟨{ w with thread := .faulted .nullPointer }, none⟩
    | some h => ⟨w, some (h, h.handler env w.kcp turn)⟩
  else ⟨{ w with thread := .returned }, none⟩

/-- A pass of the loop, up to there. -/
def takePacket (env : Env) (time : Nat → UInt64) (w : Worker) : MidHandler :=
  match w.kcp.popBack with
  | some (packet, kcp) => startHandler env { w with kcp } ⟨packet, time⟩
  | none => ⟨if w.kcp.state ≠ .connected then { w with thread := .returned } else w, none⟩

def midStep (env : Env) (s : MidHandler) : MidAct → MidHandler × List XorCall
  | .take time =>
    match s.current with
    | some _ => (s, [])
    | none => if s.worker.thread = .running then (takePacket env time s.worker, []) else (s, [])
  | .statement =>
    if s.worker.thread ≠ .running then (s, [])
    else match s.current with
    | none => (s, [])
    | some (_, []) => ({ s with current := none }, [])
    | some (h, a :: rest) => (⟨(Act.exec env h s.worker a).1, some (h, rest)⟩, [])
  | .parse message =>
    if s.worker.thread.alive then
      ({ s with worker := s.worker.receive env message },
        if message = [] then [] else [⟨message, s.worker.kcp.inboundKey env⟩])
    else (s, [])

/-- A new connection, its thread before the first packet. -/
def MidHandler.start (env : Env) (ep : Endpoint) (now : Int) : MidHandler :=
  ⟨Worker.start env.platform ep now, none⟩

/-! ## Without a datagram in between -/

section Alone

variable {env : Env}

theorem statement_stopped {s : MidHandler} (h : s.worker.thread ≠ .running) (n : Nat) :
    Runs.final (midStep env) s (List.replicate n .statement) = s := by
  have hstep : midStep env s .statement = (s, []) := by simp [midStep, h]
  induction n with
  | zero => rfl
  | succ n ih => rw [List.replicate_succ, Runs.final_cons, hstep, ih]

theorem exec_stopped {h : PacketHandler} {w : Worker} (hw : w.thread ≠ .running) (acts : List Act) :
    Runs.final (Act.exec env h) w acts = w := by
  induction acts with
  | nil => rfl
  | cons a acts ih =>
    have hexec : Act.exec env h w a = (w, []) := by simp [Act.exec, hw]
    rw [Runs.final_cons, hexec, ih]

/-- A handler's statements, one after the other, are its run. -/
theorem statements_run {h : PacketHandler} (w : Worker) (acts : List Act) :
    (Runs.final (midStep env) ⟨w, some (h, acts)⟩ (List.replicate acts.length .statement)).worker =
      Runs.final (Act.exec env h) w acts := by
  induction acts generalizing w with
  | nil => rfl
  | cons a acts ih =>
    by_cases hw : w.thread = .running
    · have hstep : midStep env ⟨w, some (h, a :: acts)⟩ .statement =
          (⟨(Act.exec env h w a).1, some (h, acts)⟩, []) := by
        simp [midStep, hw]
      rw [List.length_cons, List.replicate_succ, Runs.final_cons, hstep, Runs.final_cons]
      exact ih _
    · rw [statement_stopped hw, exec_stopped hw]

/-- And a packet's turn is a pass of the loop. -/
theorem take_statements (w : Worker) (time : Nat → UInt64) :
    ∃ n, (Runs.final (midStep env) ⟨w, none⟩ (.take time :: List.replicate n .statement)).worker =
      (packetQueueHandler env time w).1 := by
  rw [packetQueueHandler]
  by_cases hw : w.thread = .running
  · have htake : midStep env ⟨w, none⟩ (.take time) = (takePacket env time w, []) := by simp [midStep, hw]
    simp only [Runs.final_cons, htake, hw, ne_eq, not_true_eq_false, if_false, takePacket]
    cases hpop : w.kcp.popBack with
    | none =>
      refine ⟨0, ?_⟩
      dsimp only [List.replicate_zero, Runs.final_nil]
      split <;> rfl
    | some p =>
      obtain ⟨packet, kcp⟩ := p
      simp only [handlePacket, ne_eq, not_true_eq_false, if_false, startHandler]
      by_cases ha : admitted env.ids kcp.sessionState packet.packetId = true
      · simp only [ha, if_true, runHandler]
        cases hh : packets env.ids packet.packetId with
        | none => exact ⟨0, rfl⟩
        | some h => exact ⟨_, statements_run _ (h.handler env kcp ⟨packet, time⟩)⟩
      · simp only [ha, Bool.false_eq_true, if_false]
        exact ⟨0, rfl⟩
  · have htake : midStep env ⟨w, none⟩ (.take time) = (⟨w, none⟩, []) := by simp [midStep, hw]
    exact ⟨0, by simp [htake, hw]⟩

end Alone

/-- What a step can do, and the calls of `Xor` it makes. -/
inductive MidStepped (env : Env) (s : MidHandler) (a : MidAct) : MidHandler → List XorCall → Prop
  | nothing : MidStepped env s a s []
  | takes (time) (hc : s.current = none) : MidStepped env s a (takePacket env time s.worker) []
  | executes (h act rest) (ha : a = .statement) (hr : s.worker.thread = .running)
      (hc : s.current = some (h, act :: rest)) :
      MidStepped env s a ⟨(Act.exec env h s.worker act).1, some (h, rest)⟩ []
  | ends (h) (hc : s.current = some (h, [])) : MidStepped env s a { s with current := none } []
  | parses (message) (ha : a = .parse message) (halive : s.worker.thread.alive = true) :
      MidStepped env s a { s with worker := s.worker.receive env message }
        (if message = [] then [] else [⟨message, s.worker.kcp.inboundKey env⟩])

theorem midStep_stepped (env : Env) (s : MidHandler) (a : MidAct) :
    MidStepped env s a (midStep env s a).1 (midStep env s a).2 := by
  obtain ⟨w, current⟩ := s
  cases a with
  | take time =>
    cases current with
    | some c => exact .nothing
    | none =>
      by_cases hr : w.thread = .running
      · simp only [midStep, hr, if_true]
        exact .takes time rfl
      · simp only [midStep, hr, if_false]
        exact .nothing
  | statement =>
    by_cases hr : w.thread = .running
    · match current with
      | none =>
        simp only [midStep, hr, ne_eq, not_true_eq_false, if_false]
        exact .nothing
      | some (h, []) =>
        simp only [midStep, hr, ne_eq, not_true_eq_false, if_false]
        exact .ends h rfl
      | some (h, act :: rest) =>
        simp only [midStep, hr, ne_eq, not_true_eq_false, if_false]
        exact .executes h act rest rfl hr rfl
    · simp only [midStep, ne_eq, hr, not_false_eq_true, if_true]
      exact .nothing
  | parse message =>
    by_cases halive : w.thread.alive = true
    · simp only [midStep, halive, if_true]
      exact .parses message rfl halive
    · simp only [midStep, halive, Bool.false_eq_true, if_false]
      exact .nothing

/-! ## The property, and where it fails -/

/-- The flag is up only with the key in place. -/
def MidHandler.Published (s : MidHandler) : Prop :=
  s.worker.kcp.shouldUseMt = true → s.worker.kcp.mtKey ≠ []

/-- A call that never computes `i % 0`. -/
def XorCall.Safe (c : XorCall) : Prop := c.key ≠ [] ∧ xor c.packet c.key ≠ .error .divByZero

/-- The thread's next statement is `SetUseMT(true)`. -/
def MidHandler.beforeFlag (s : MidHandler) : Bool :=
  match s.current with
  | some (_, .setUseMT true :: _) => true
  | _ => false

/-- The thread's next statement is `GenerateMTKey`. -/
def MidHandler.beforeKey (s : MidHandler) : Bool :=
  match s.current with
  | some (_, .generateMTKey _ :: _) => true
  | _ => false

/-- The step raises the flag of a client that has no key. -/
def RaisesFlagEarly (s : MidHandler) (a : MidAct) : Prop :=
  a = .statement ∧ s.worker.thread = .running ∧ s.beforeFlag = true ∧ s.worker.kcp.mtKey = []

/-- The step is a `ParsePacket` with a message between the two statements. -/
def ParsesBetween (s : MidHandler) (a : MidAct) : Prop :=
  ∃ message, a = .parse message ∧ message ≠ [] ∧ s.worker.thread.alive = true ∧ s.beforeKey = true

/-! ## Where a handler stands -/

/-- A statement that leaves flag and key alone and a connection in progress. -/
def Act.Steady (k : Kcp) : Act → Prop
  | .send .. => True
  | .setSessionState state => state = .pickingCharacter ∧ k.shouldUseMt = true
  | _ => False

/-- The token handler's statements from `GenerateMTKey` on. -/
def FromKey (acts : List Act) : Prop :=
  ∃ packet id, acts =
    [.generateMTKey secretKeySeed, .setSessionState .waitingForLogin, .send packet id true]

/-- The client, and what of a handler is still to come. -/
inductive Underway (env : Env) (k : Kcp) : List Act → Prop
  | steady {acts} (hp : Progress env k) (hacts : ∀ a ∈ acts, a.Steady k) : Underway env k acts
  | first {acts} (hu : k.shouldUseMt = false) (hk : k.mtKey = []) (hacts : FromKey acts) :
      Underway env k (.setUseMT true :: acts)
  | between {acts} (hu : k.shouldUseMt = true) (hk : k.mtKey = []) (hacts : FromKey acts) :
      Underway env k acts
  | keyed {packet id} (hu : k.shouldUseMt = true) (hk : k.mtKey = mtKeyOf env) :
      Underway env k [.setSessionState .waitingForLogin, .send packet id true]

/-- What of its handler the thread still has to execute. -/
def MidHandler.pending (s : MidHandler) : List Act :=
  match s.current with
  | none => []
  | some (_, acts) => acts

def MidHandler.Inv (env : Env) (s : MidHandler) : Prop := Underway env s.worker.kcp s.pending

variable {env : Env}

theorem handler_underway {k : Kcp} (hp : Progress env k) {t : Turn} {h : PacketHandler}
    (ha : admitted env.ids k.sessionState t.packet.packetId = true)
    (hh : packets env.ids t.packet.packetId = some h) : Underway env k (h.handler env k t) := by
  rcases hp.admitted_cases ha with hid | ⟨hid, hs⟩ | ⟨hid, hs⟩ | ⟨hid, hs⟩
  · rw [hid, packets_pingReq] at hh
    cases hh
    refine .steady hp fun a hmem => ?_
    obtain rfl := List.mem_singleton.mp hmem
    trivial
  · rw [hid, packets_getPlayerTokenReq] at hh
    cases hh
    cases hp with
    | before _ hu hk => exact .first hu hk ⟨_, _, rfl⟩
    | after hs' => simp [hs] at hs'
  · rw [hid, packets_playerLoginReq] at hh
    cases hh
    obtain ⟨hu, -⟩ := hp.key_of_ne (by simp [hs])
    refine .steady hp fun a hmem => ?_
    simp only [PacketHandler.handler, handlePlayLoginReq, sendPacket, List.mem_cons, List.not_mem_nil,
      or_false] at hmem
    rcases hmem with rfl | rfl | rfl | rfl | rfl | rfl | rfl
    case inr.inr.inr.inr.inr.inl => exact ⟨rfl, hu⟩
    all_goals trivial
  · rw [hid, packets_setPlayerBornDataReq] at hh
    cases hh

/-- `Send` writes nothing to the client. -/
theorem exec_send_kcp {h : PacketHandler} {w : Worker} {packet id useDispatchKey} :
    (Act.exec env h w (.send packet id useDispatchKey)).1.kcp = w.kcp := by
  unfold Act.exec
  split
  · rfl
  · dsimp only
    split <;> rfl

theorem Underway.exec {h : PacketHandler} {k : Kcp} {a : Act} {rest : List Act}
    (hst : Underway env k (a :: rest)) :
    Underway env (Act.exec env h ⟨k, .running⟩ a).1.kcp rest := by
  generalize hacts' : a :: rest = acts at hst
  cases hst with
  | steady hp hacts =>
    subst hacts'
    obtain ⟨ha, hrest⟩ := List.forall_mem_cons.mp hacts
    cases a with
    | send =>
      rw [exec_send_kcp]
      exact .steady hp hrest
    | setSessionState state =>
      obtain ⟨rfl, hu⟩ := ha
      cases hp with
      | before _ hu' => simp [hu] at hu'
      | after _ hu hk =>
        refine .steady (.after (.inr rfl) hu hk) fun b hb => ?_
        cases b with
        | setSessionState => exact hrest _ hb
        | send => trivial
        | setUseMT => exact hrest _ hb
        | generateMTKey => exact hrest _ hb
    | setUseMT => exact ha.elim
    | generateMTKey => exact ha.elim
  | first hu hk hacts =>
    cases hacts'
    exact .between rfl hk hacts
  | between hu hk hacts =>
    subst hacts'
    obtain ⟨packet, id, hacts⟩ := hacts
    cases hacts
    rw [exec_generateMTKey]
    exact .keyed hu (by simp only [mtKeyOf])
  | keyed hu hk =>
    cases hacts'
    refine .steady (.after (.inl rfl) hu hk) fun b hb => ?_
    obtain rfl := List.mem_singleton.mp hb
    trivial

/-- The queue is not part of it. -/
theorem Underway.setQueue {k : Kcp} {acts : List Act} (h : Underway env k acts) (q : List BasePacket) :
    Underway env { k with packetQueue := q } acts := by
  cases h with
  | steady hp hacts =>
    refine .steady (hp.setQueue q) fun a ha => ?_
    have := hacts a ha
    cases a <;> exact this
  | first hu hk hacts => exact .first hu hk hacts
  | between hu hk hacts => exact .between hu hk hacts
  | keyed hu hk => exact .keyed hu hk

/-! ## The invariant -/

theorem MidHandler.Inv.start (env : Env) (ep : Endpoint) (now : Int) : (MidHandler.start env ep now).Inv env :=
  .steady (.start env ep now) (by simp [MidHandler.pending, MidHandler.start])

/-- Between handlers the connection is in progress. -/
theorem Underway.progress {k : Kcp} (h : Underway env k []) : Progress env k := by
  cases h with
  | steady hp => exact hp
  | between _ _ hacts =>
    obtain ⟨_, _, hacts⟩ := hacts
    cases hacts

theorem takePacket_underway {w : Worker} (hp : Progress env w.kcp) (time : Nat → UInt64) :
    (takePacket env time w).Inv env := by
  unfold takePacket
  rcases w.kcp.popBack_cases with ⟨-, hpop⟩ | ⟨packet, rest, -, hpop⟩
  · rw [hpop]
    unfold MidHandler.Inv
    dsimp only
    split <;> exact .steady hp (by simp [MidHandler.pending])
  · have hk : Progress env { w.kcp with packetQueue := rest } := hp.setQueue rest
    rw [hpop]
    dsimp only [startHandler]
    split
    next ha =>
      split
      · exact .steady hk (by simp [MidHandler.pending])
      next h hh => exact handler_underway hk ha hh
    · exact .steady hk (by simp [MidHandler.pending])

theorem receive_underway {w : Worker} {acts : List Act} (h : Underway env w.kcp acts) (message : Bytes) :
    Underway env (w.receive env message).kcp acts := by
  rcases receive_cases env w message with he | ⟨_, packet, _, _, he⟩
  · rw [he]
    exact h
  · rw [he]
    exact h.setQueue _

theorem MidStepped.inv {s s' : MidHandler} {a : MidAct} {l : List XorCall} (hst : MidStepped env s a s' l)
    (h : s.Inv env) : s'.Inv env := by
  unfold MidHandler.Inv MidHandler.pending at h
  cases hst with
  | nothing => exact h
  | takes time hc =>
    rw [hc] at h
    exact takePacket_underway h.progress time
  | executes _ _ _ _ hr hc =>
    rw [hc] at h
    obtain ⟨⟨k, th⟩, current⟩ := s
    obtain rfl : th = .running := hr
    exact h.exec
  | ends _ hc =>
    rw [hc] at h
    exact h
  | parses message => exact receive_underway h message

theorem midStep_inv {s : MidHandler} (h : s.Inv env) (a : MidAct) : (midStep env s a).1.Inv env :=
  (midStep_stepped env s a).inv h

/-! ## What a state and a step show -/

theorem beforeKey_eq (s : MidHandler) :
    s.beforeKey = true ↔ ∃ seed rest, s.pending = .generateMTKey seed :: rest := by
  unfold MidHandler.beforeKey MidHandler.pending
  split
  next h => simp [h]
  next hno =>
    cases hc : s.current with
    | none => simp
    | some c =>
      obtain ⟨h, acts⟩ := c
      simp only [Bool.false_eq_true, false_iff]
      rintro ⟨seed, rest, rfl⟩
      exact hno _ _ _ hc

/-- The flag is up without the key exactly between the two statements. -/
theorem published_iff {s : MidHandler} (h : s.Inv env) : s.Published ↔ s.beforeKey = false := by
  rw [← Bool.not_eq_true, beforeKey_eq]
  unfold MidHandler.Published
  unfold MidHandler.Inv at h
  generalize s.pending = acts at h
  cases h with
  | steady hp hacts =>
    refine iff_of_true (fun hu => ?_) ?_
    · cases hp with
      | before _ hu' => simp [hu'] at hu
      | after _ _ hk => exact hk ▸ mtKeyOf_ne_nil env
    · rintro ⟨seed, rest, rfl⟩
      exact hacts _ List.mem_cons_self
  | first hu =>
    refine iff_of_true (fun hu' => ?_) (by simp)
    simp [hu] at hu'
  | between hu hk hacts =>
    obtain ⟨packet, id, rfl⟩ := hacts
    simp [hu, hk]
  | keyed _ hk => exact iff_of_true (fun _ => hk ▸ mtKeyOf_ne_nil env) (by simp)

theorem takePacket_published {w : Worker} (h : MidHandler.Published ⟨w, none⟩) (time : Nat → UInt64) :
    (takePacket env time w).Published := by
  unfold takePacket
  rcases w.kcp.popBack_cases with ⟨-, hpop⟩ | ⟨packet, rest, -, hpop⟩
  · rw [hpop]
    unfold MidHandler.Published
    dsimp only
    split <;> exact h
  · rw [hpop]
    dsimp only [startHandler]
    split
    · split <;> exact h
    · exact h

/-- Nothing but the flag's statement takes it away. -/
theorem MidStepped.published {s s' : MidHandler} {a : MidAct} {l : List XorCall} (hst : MidStepped env s a s' l)
    (h : s.Published) (hn : ¬ RaisesFlagEarly s a) : s'.Published := by
  cases hst with
  | nothing => exact h
  | takes time => exact takePacket_published h time
  | executes handler act rest ha hr hc =>
    obtain ⟨⟨k, th⟩, current⟩ := s
    obtain rfl : th = .running := hr
    obtain rfl : current = some (handler, act :: rest) := hc
    cases act with
    | setUseMT state =>
      cases state with
      | false => exact fun hu => absurd hu Bool.false_ne_true
      | true => exact fun _ hk => hn ⟨ha, rfl, rfl, hk⟩
    | generateMTKey seed =>
      unfold MidHandler.Published
      rw [exec_generateMTKey]
      intro _ hk
      simp only at hk
      exact generateKey_ne_nil _ _ hk
    | setSessionState => exact h
    | send =>
      unfold MidHandler.Published
      rw [exec_send_kcp]
      exact h
  | ends => exact h
  | parses message =>
    unfold MidHandler.Published
    rcases receive_cases env s.worker message with he | ⟨_, _, _, _, he⟩ <;> rw [he] <;> exact h

theorem MidHandler.Published.step {s : MidHandler} (h : s.Published) {a : MidAct}
    (hn : ¬ RaisesFlagEarly s a) : (midStep env s a).1.Published :=
  (midStep_stepped env s a).published h hn

theorem RaisesFlagEarly.not_published {s : MidHandler} {a : MidAct} (h : RaisesFlagEarly s a) :
    ¬ (midStep env s a).1.Published := by
  obtain ⟨rfl, hr, hflag, hk⟩ := h
  obtain ⟨⟨k, th⟩, current⟩ := s
  obtain rfl : th = .running := hr
  unfold MidHandler.beforeFlag at hflag
  dsimp only at hflag
  split at hflag
  · exact fun h => h rfl hk
  · cases hflag

theorem XorCall.safe_iff {c : XorCall} : c.Safe ↔ c.key ≠ [] := by
  refine ⟨fun h => h.1, fun h => ⟨h, ?_⟩⟩
  rw [xor_of_ne h]
  exact fun he => nomatch he

/-- The key `ParsePacket` uses. -/
theorem MidHandler.Published.inboundKey {s : MidHandler} (h : s.Published) (hd : env.dispatchKey ≠ []) :
    s.worker.kcp.inboundKey env ≠ [] := by
  unfold Kcp.inboundKey
  split
  next hu => exact h hu
  next => exact hd

/-- Only `ParsePacket` with a message calls `Xor`, while there is a process. -/
theorem mem_midStep_log {s : MidHandler} {a : MidAct} {c : XorCall} :
    c ∈ (midStep env s a).2 ↔ ∃ message, a = .parse message ∧ message ≠ [] ∧
      s.worker.thread.alive = true ∧ c = ⟨message, s.worker.kcp.inboundKey env⟩ := by
  refine ⟨fun hc => ?_, fun hc => ?_⟩
  · have hst := midStep_stepped env s a
    generalize (midStep env s a).1 = s', (midStep env s a).2 = l at hst hc
    cases hst with
    | parses message ha halive =>
      by_cases hm : message = []
      · simp [hm] at hc
      · exact ⟨message, ha, hm, halive, by simpa [hm] using hc⟩
    | _ => cases hc
  · obtain ⟨message, rfl, hm, halive, rfl⟩ := hc
    simp [midStep, hm, halive]

theorem MidHandler.Published.safe {s : MidHandler} (h : s.Published) (hd : env.dispatchKey ≠ [])
    (a : MidAct) :
    ∀ c ∈ (midStep env s a).2, c.Safe := by
  intro c hc
  obtain ⟨message, -, -, -, rfl⟩ := mem_midStep_log.mp hc
  exact XorCall.safe_iff.mpr (h.inboundKey hd)

/-- Between the two statements the key that `ParsePacket` uses is empty. -/
theorem inboundKey_between {s : MidHandler} (h : s.Inv env) (hb : s.beforeKey = true) :
    s.worker.kcp.inboundKey env = [] := by
  have hnot : ¬ s.Published := fun hp => by simp [(published_iff h).mp hp] at hb
  simp only [MidHandler.Published, ne_eq, Classical.not_imp, not_not] at hnot
  obtain ⟨hu, hk⟩ := hnot
  simp [Kcp.inboundKey, hu, hk]

theorem midStep_safe_iff {s : MidHandler} (h : s.Inv env) (hd : env.dispatchKey ≠ []) (a : MidAct) :
    (∀ c ∈ (midStep env s a).2, c.Safe) ↔ ¬ ParsesBetween s a := by
  constructor
  · rintro hsafe ⟨message, ha, hmessage, halive, hb⟩
    exact (hsafe _ (mem_midStep_log.mpr ⟨message, ha, hmessage, halive, rfl⟩)).1 (inboundKey_between h hb)
  · intro hn c hc
    obtain ⟨message, ha, hmessage, halive, rfl⟩ := mem_midStep_log.mp hc
    have hb : s.beforeKey = false := by
      rw [← Bool.not_eq_true]
      exact fun hb => hn ⟨message, ha, hmessage, halive, hb⟩
    exact ((published_iff h).mpr hb).safe hd a _ hc

/-! ## Runs -/

/-- In every state that the run reaches the key is there with the flag, and no
`Xor` of it computes `i % 0`. -/
def KeyPublished (env : Env) (s : MidHandler) (acts : List MidAct) : Prop :=
  (∀ reached, reached <+: acts → (Runs.final (midStep env) s reached).Published) ∧
    ∀ c ∈ Runs.log (midStep env) s acts, c.Safe

theorem keyPublished_iff {s : MidHandler} (h : s.Published) (hd : env.dispatchKey ≠ []) (acts : List MidAct) :
    KeyPublished env s acts ↔ Runs.AllSteps (midStep env) (fun s a => ¬ RaisesFlagEarly s a) s acts := by
  constructor
  · intro hpub
    refine Runs.allSteps_iff.mpr fun before a after hacts hearly => ?_
    have hreached := hpub.1 (before ++ [a]) ⟨after, by rw [hacts]; simp⟩
    rw [Runs.final_concat] at hreached
    exact hearly.not_published hreached
  · intro hsteps
    constructor
    · rintro reached ⟨rest, rfl⟩
      exact Runs.inv_of_allSteps MidHandler.Published (fun _ _ hs hn => hs.step hn) h
        (Runs.allSteps_append.mp hsteps).1
    · have hboth := Runs.inv_log (fun s l => s.Published ∧ ∀ c ∈ l, c.Safe)
        (fun s a l hs hn => ⟨hs.1.step hn, fun c hc =>
          (List.mem_append.mp hc).elim (hs.2 c) (hs.1.safe hd a c)⟩)
        (show s.Published ∧ ∀ c ∈ ([] : List XorCall), c.Safe from ⟨h, by simp⟩) hsteps
      exact hboth.2

/-- **The flag and the key.** A run keeps the flag behind the key exactly if it never
executes `SetUseMT(true)` for a client without a key. A state of any run is wrong
exactly where the next statement is `GenerateMTKey`, and of its calls of `Xor`
those that `ParsePacket` makes there. -/
theorem key_published_iff (env : Env) (hd : env.dispatchKey ≠ []) (ep : Endpoint) (now : Int)
    (acts : List MidAct) :
    (KeyPublished env (.start env ep now) acts ↔
      Runs.AllSteps (midStep env) (fun s a => ¬ RaisesFlagEarly s a) (.start env ep now) acts) ∧
    ((Runs.final (midStep env) (.start env ep now) acts).Published ↔
      (Runs.final (midStep env) (.start env ep now) acts).beforeKey = false) ∧
    ((∀ c ∈ Runs.log (midStep env) (.start env ep now) acts, c.Safe) ↔
      Runs.AllSteps (midStep env) (fun s a => ¬ ParsesBetween s a) (.start env ep now) acts) := by
  have hstart := MidHandler.Inv.start env ep now
  refine ⟨keyPublished_iff ((published_iff hstart).mpr rfl) hd acts, ?_, ?_⟩
  · exact published_iff (Runs.inv (MidHandler.Inv env) (fun _ a h => midStep_inv h a) hstart)
  · rw [Runs.forall_log_iff]
    exact Runs.allSteps_congr (MidHandler.Inv env) (fun _ a h => midStep_inv h a)
      (fun _ a h => midStep_safe_iff h hd a) hstart

/-! ## A run of the token handler -/

/-- The datagram's message of a token request. -/
def tokenRequest : Bytes :=
  xorFrom Env.sample.dispatchKey 0 (BasePacket.encode Env.sample 0 [] Env.sample.ids.getPlayerTokenReq 0)

theorem key_published_sample :
    KeyPublished Env.sample (.start Env.sample ⟨0, 0⟩ 0) [.parse tokenRequest, .take fun _ => 0] :=
  (key_published_iff Env.sample (by decide) ⟨0, 0⟩ 0 [.parse tokenRequest, .take fun _ => 0]).1.mpr
    (by simp [RaisesFlagEarly])

/-- A message parsed right after `SetUseMT(true)`. -/
theorem flag_without_key :
    let acts := [MidAct.parse tokenRequest, .take fun _ => 0, .statement]
    let s := Runs.final (midStep Env.sample) (.start Env.sample ⟨0, 0⟩ 0) acts
    s.worker.kcp.shouldUseMt = true ∧ s.worker.kcp.mtKey = [] ∧
      ∃ c ∈ (midStep Env.sample s (.parse tokenRequest)).2, xor c.packet c.key = .error .divByZero := by
  decide +kernel

end EyPS
