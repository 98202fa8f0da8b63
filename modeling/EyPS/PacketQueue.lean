/-
The deque between `ParsePacket`, which pushes at its front, and the packet
handler thread, which pops at its back: whatever their order, the loop
handles the packets first in, first out, so that a run of the two is a run
of `handlePacket` over the packets in the order of their arrival.
-/
import EyPS.Progress

namespace EyPS

/-- One step of the two threads, on a connection that stays open. -/
inductive QueueAct
  /-- `client->packet_queue.push_front(DecPacket)` -/
  | push (packet : BasePacket)
  /-- a pass of `PacketQueueHandler`, with the answers of `time(0)` -/
  | pass (time : Nat → UInt64)

def queueStep (env : Env) (w : Worker) : QueueAct → Worker × List Event
  | .push packet => ({ w with kcp := { w.kcp with packetQueue := packet :: w.kcp.packetQueue } }, [])
  | .pass time => packetQueueHandler env time w

/-- The `else` branch of `ParsePacket` from the message on. An exception is
logged and the packet is lost; anything worse ends the process. -/
def Worker.receive (env : Env) (w : Worker) (data : Bytes) : Worker :=
  match w.kcp.queueMessage env data with
  | .ok kcp => { w with kcp }
  | .error e => if e.isException then w else { w with thread := .faulted e }

/-- The worker with these packets waiting, oldest first. -/
def Worker.waiting (w : Worker) (packets : List BasePacket) : Worker :=
  { w with kcp := { w.kcp with packetQueue := packets.reverse } }

/-- The turns that a first-in-first-out queue gives, from a backlog. -/
def turns : List BasePacket → List QueueAct → List Turn
  | _, [] => []
  | backlog, .push packet :: acts => turns (backlog ++ [packet]) acts
  | [], .pass _ :: acts => turns [] acts
  | packet :: backlog, .pass time :: acts => ⟨packet, time⟩ :: turns backlog acts

variable {env : Env}

/-! ## The handlers do not see the queue -/

theorem exec_waiting {h : PacketHandler} (w : Worker) (ps : List BasePacket) (a : Act) :
    Act.exec env h (w.waiting ps) a = ((Act.exec env h w a).1.waiting ps, (Act.exec env h w a).2) := by
  obtain ⟨k, th⟩ := w
  by_cases hr : th = .running
  · subst hr
    cases a with
    | send packet id u =>
      simp only [Act.exec, Worker.waiting, ne_eq, not_true_eq_false, if_false]
      split <;> rfl
    | _ => simp [Act.exec, Worker.waiting]
  · simp [Act.exec, Worker.waiting, hr]

theorem runHandler_waiting (w : Worker) (ps : List BasePacket) (t : Turn) :
    runHandler env (w.waiting ps) t = ((runHandler env w t).1.waiting ps, (runHandler env w t).2) := by
  unfold runHandler
  split
  next => rfl
  next h _ =>
    have hacts : h.handler env (w.waiting ps).kcp t = h.handler env w.kcp t := by cases h <;> rfl
    dsimp only
    rw [hacts, Runs.final_map (fun w : Worker => w.waiting ps) (fun w a => exec_waiting w ps a),
      Runs.log_map (fun w : Worker => w.waiting ps) (fun w a => exec_waiting w ps a)]

theorem handlePacket_waiting (w : Worker) (ps : List BasePacket) (t : Turn) :
    handlePacket env (w.waiting ps) t = ((handlePacket env w t).1.waiting ps, (handlePacket env w t).2) := by
  unfold handlePacket
  have hthread : (w.waiting ps).thread = w.thread := rfl
  have hstate : (w.waiting ps).kcp.sessionState = w.kcp.sessionState := rfl
  rw [hthread, hstate]
  split
  next => rfl
  split
  next => exact runHandler_waiting w ps t
  next => rfl

/-! ## What no packet changes -/

/-- Whatever is not the MT flag, the MT key or the session state. -/
theorem exec_keeps {β : Type} {h : PacketHandler} {f : Kcp → β}
    (hf : ∀ k u key s, f { k with shouldUseMt := u, mtKey := key, sessionState := s } = f k)
    (w : Worker) (a : Act) : f (Act.exec env h w a).1.kcp = f w.kcp := by
  unfold Act.exec
  split
  next => rfl
  cases a with
  | setUseMT state => exact hf w.kcp state w.kcp.mtKey w.kcp.sessionState
  | generateMTKey seed => exact hf w.kcp w.kcp.shouldUseMt _ w.kcp.sessionState
  | setSessionState state => exact hf w.kcp w.kcp.shouldUseMt w.kcp.mtKey state
  | send => dsimp only; split <;> rfl

theorem handlePacket_keeps {β : Type} {f : Kcp → β}
    (hf : ∀ k u key s, f { k with shouldUseMt := u, mtKey := key, sessionState := s } = f k)
    (w : Worker) (t : Turn) : f (handlePacket env w t).1.kcp = f w.kcp := by
  unfold handlePacket
  split
  next => rfl
  split
  next =>
    unfold runHandler
    split
    next => rfl
    next =>
      exact Runs.inv (fun v : Worker => f v.kcp = f w.kcp) (fun v a hv => (exec_keeps hf v a).trans hv) rfl
  next => rfl

/-- The connection under a session: its endpoint and its state. -/
def Kcp.connection (k : Kcp) : Endpoint × ConnectionState := (k.endpoint, k.state)

theorem handlePacket_connection (w : Worker) (t : Turn) :
    (handlePacket env w t).1.kcp.connection = w.kcp.connection := handlePacket_keeps (fun _ _ _ _ => rfl) w t

theorem handlePacket_packetQueue (w : Worker) (t : Turn) :
    (handlePacket env w t).1.kcp.packetQueue = w.kcp.packetQueue :=
  handlePacket_keeps (fun _ _ _ _ => rfl) w t

theorem handlePacket_state (w : Worker) (t : Turn) : (handlePacket env w t).1.kcp.state = w.kcp.state :=
  congrArg Prod.snd (handlePacket_connection w t)

/-- Nor does a pass, which takes its packet off the queue. -/
theorem packetQueueHandler_keeps {β : Type} {f : Kcp → β}
    (hf : ∀ k u key s q, f { k with shouldUseMt := u, mtKey := key, sessionState := s, packetQueue := q } = f k)
    (w : Worker) (time : Nat → UInt64) : f (packetQueueHandler env time w).1.kcp = f w.kcp := by
  unfold packetQueueHandler
  split
  next => rfl
  split
  next packet kcp hp =>
    have hkcp : f kcp = f w.kcp := by
      unfold Kcp.popBack at hp
      obtain ⟨_, _, hp⟩ := Option.map_eq_some_iff.mp hp
      cases hp
      exact hf w.kcp w.kcp.shouldUseMt w.kcp.mtKey w.kcp.sessionState _
    exact (handlePacket_keeps (fun k u key s => hf k u key s k.packetQueue) { w with kcp } ⟨packet, time⟩).trans hkcp
  next => split <;> rfl

theorem packetQueueHandler_endpoint (w : Worker) (time : Nat → UInt64) :
    (packetQueueHandler env time w).1.kcp.endpoint = w.kcp.endpoint :=
  packetQueueHandler_keeps (fun _ _ _ _ _ => rfl) w time

/-! ## First in, first out -/

/-- A pass over an open connection takes the oldest packet, or waits. -/
theorem packetQueueHandler_waiting {w : Worker} (hc : w.kcp.state = .connected) (hr : w.thread = .running)
    (ps : List BasePacket) (time : Nat → UInt64) :
    packetQueueHandler env time (w.waiting ps) = match ps with
      | [] => (w.waiting [], [])
      | p :: ps => ((handlePacket env w ⟨p, time⟩).1.waiting ps, (handlePacket env w ⟨p, time⟩).2) := by
  cases ps with
  | nil => simp [packetQueueHandler, Worker.waiting, Kcp.popBack, hr, hc]
  | cons p ps =>
    dsimp only
    rw [← handlePacket_waiting w ps]
    simp [packetQueueHandler, Worker.waiting, Kcp.popBack, hr]

theorem packetQueueHandler_stopped {w : Worker} (h : w.thread ≠ .running) (time : Nat → UInt64) :
    packetQueueHandler env time w = (w, []) := by
  simp [packetQueueHandler, h]

/-- A stopped thread logs nothing, whatever is pushed. -/
theorem log_queueStep_stopped {w : Worker} (h : w.thread ≠ .running) (acts : List QueueAct) :
    Runs.log (queueStep env) w acts = [] := by
  induction acts generalizing w with
  | nil => rfl
  | cons act acts ih =>
    cases act with
    | push packet =>
      have hw : (queueStep env w (.push packet)).1.thread ≠ .running := h
      simpa [queueStep] using ih hw
    | pass time =>
      rw [Runs.log_cons, queueStep, packetQueueHandler_stopped h]
      simpa using ih h

theorem log_handlePacket_stopped {w : Worker} (h : w.thread ≠ .running) (ts : List Turn) :
    Runs.log (handlePacket env) w ts = [] :=
  (Runs.stays (handlePacket_stopped h) ts).2

/-- **The queue is first in, first out**: what the threads log is what
`handlePacket` logs over the packets in the order of arrival. -/
theorem log_queueStep (env : Env) (w : Worker) (hc : w.kcp.state = .connected) (ps : List BasePacket)
    (acts : List QueueAct) :
    Runs.log (queueStep env) (w.waiting ps) acts = Runs.log (handlePacket env) w (turns ps acts) := by
  by_cases hr : w.thread = .running
  · induction acts generalizing w ps with
    | nil => rfl
    | cons act acts ih =>
      cases act with
      | push packet =>
        have hpush : (queueStep env (w.waiting ps) (.push packet)).1 = w.waiting (ps ++ [packet]) := by
          simp [queueStep, Worker.waiting]
        rw [Runs.log_cons, hpush, ih w hc (ps ++ [packet]) hr, turns]
        rfl
      | pass time =>
        rw [Runs.log_cons, queueStep, packetQueueHandler_waiting hc hr]
        cases ps with
        | nil => simpa [turns] using ih w hc [] hr
        | cons p ps =>
          simp only [turns, Runs.log_cons]
          congr 1
          by_cases hr' : (handlePacket env w ⟨p, time⟩).1.thread = .running
          · exact ih _ ((handlePacket_state w _).trans hc) ps hr'
          · have hw : ((handlePacket env w ⟨p, time⟩).1.waiting ps).thread ≠ .running := hr'
            rw [log_queueStep_stopped hw, log_handlePacket_stopped hr']
  · have hw : (w.waiting ps).thread ≠ .running := hr
    rw [log_queueStep_stopped hw, log_handlePacket_stopped hr]

/-! ## What the two threads do to the queue -/

theorem Kcp.popBack_cases (k : Kcp) : (k.packetQueue = [] ∧ k.popBack = none) ∨
    ∃ packet rest, k.packetQueue = rest ++ [packet] ∧
      k.popBack = some (packet, { k with packetQueue := rest }) := by
  rcases List.eq_nil_or_concat k.packetQueue with hq | ⟨rest, packet, hq⟩
  · exact .inl ⟨hq, by simp [Kcp.popBack, hq]⟩
  · rw [List.concat_eq_append] at hq
    exact .inr ⟨packet, rest, hq, by simp [Kcp.popBack, hq]⟩

/-- A pass over the queue takes a packet off it, or nothing happens to the
connection. -/
theorem packetQueueHandler_cases {w : Worker} (hp : Progress env w.kcp) (time : Nat → UInt64) :
    ((packetQueueHandler env time w).1.kcp = w.kcp ∧ (packetQueueHandler env time w).2 = []) ∨
      ∃ packet rest, w.kcp.packetQueue = rest ++ [packet] ∧
        Handled env { w.kcp with packetQueue := rest } ⟨packet, time⟩ (packetQueueHandler env time w).1
          (packetQueueHandler env time w).2 := by
  unfold packetQueueHandler
  split
  next => exact .inl ⟨rfl, rfl⟩
  next hr =>
    rw [not_not] at hr
    rcases w.kcp.popBack_cases with ⟨-, hpop⟩ | ⟨packet, rest, hq, hpop⟩
    · refine .inl ?_
      rw [hpop]
      dsimp only
      split <;> exact ⟨rfl, rfl⟩
    · refine .inr ⟨packet, rest, hq, ?_⟩
      rw [hpop, hr]
      exact handlePacket_handled (hp.setQueue rest) ⟨packet, time⟩

/-- What `BasePacket`'s constructor makes of the decrypted message. -/
def decrypted (env : Env) (data key : Bytes) : Except Err BasePacket := do
  BasePacket.decode env (← xor data key)

theorem decrypted_eq_ok {env : Env} {data key : Bytes} {packet : BasePacket} :
    decrypted env data key = .ok packet ↔
      ∃ plain, xor data key = .ok plain ∧ BasePacket.decode env plain = .ok packet := by
  unfold decrypted
  cases xor data key <;> simp [bind, Except.bind]

theorem decode_nil (env : Env) : BasePacket.decode env [] = .error BufferView.tooShort := by
  have hwrap : (BufferView.new []).curDataOffset + 2 < 2 ^ env.platform.sizeT :=
    Nat.lt_of_lt_of_le (by decide) env.platform.two_pow_32_le
  have hread : (BufferView.new []).read env.platform 2 true = .error BufferView.tooShort := by
    rw [BufferView.read, BufferView.readView_eq hwrap]
    rfl
  rw [BasePacket.decode, hread]
  rfl

/-- `queueMessage` pushes what the message decrypts to. -/
theorem queueMessage_eq (k : Kcp) {data : Bytes} (h : data ≠ []) : k.queueMessage env data =
    (decrypted env data (k.inboundKey env)).map fun packet => { k with packetQueue := packet :: k.packetQueue } := by
  unfold Kcp.queueMessage decrypted
  rw [if_neg h]
  cases xor data (k.inboundKey env) with
  | error e => rfl
  | ok plain =>
    dsimp only [bind, Except.bind]
    cases BasePacket.decode env plain <;> rfl

theorem decrypted_nil (key : Bytes) : decrypted env [] key = .error BufferView.tooShort := decode_nil env

/-- A message that decodes is pushed; any other leaves the client as it was. -/
theorem receive_kcp (w : Worker) (data : Bytes) : (w.receive env data).kcp =
    match decrypted env data (w.kcp.inboundKey env) with
    | .ok packet => { w.kcp with packetQueue := packet :: w.kcp.packetQueue }
    | .error _ => w.kcp := by
  by_cases hdata : data = []
  · subst hdata
    rw [decrypted_nil]
    simp [Worker.receive, Kcp.queueMessage]
  · rw [Worker.receive, queueMessage_eq w.kcp hdata]
    cases decrypted env data (w.kcp.inboundKey env) with
    | error e =>
      dsimp only [Except.map]
      split <;> rfl
    | ok packet => rfl

/-- So a message does nothing to the queue, or adds the decoding of the decrypted message. -/
theorem receive_cases (env : Env) (w : Worker) (data : Bytes) :
    (w.receive env data).kcp = w.kcp ∨
      ∃ plain packet, xor data (w.kcp.inboundKey env) = .ok plain ∧ BasePacket.decode env plain = .ok packet ∧
        (w.receive env data).kcp = { w.kcp with packetQueue := packet :: w.kcp.packetQueue } := by
  rw [receive_kcp]
  cases hd : decrypted env data (w.kcp.inboundKey env) with
  | error e => exact .inl rfl
  | ok packet =>
    obtain ⟨plain, hx, hdec⟩ := decrypted_eq_ok.mp hd
    exact .inr ⟨plain, packet, hx, hdec, rfl⟩

end EyPS
