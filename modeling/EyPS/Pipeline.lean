/-
From `Recv` to the handlers: the messages `ParsePacket` gets, decrypted with
the key of the moment and decoded, go through `packet_queue` in order, none
lost and none twice, in any interleaving with the packet handler thread. A
message that does not decode leaves no trace.
-/
import EyPS.PacketQueue

namespace EyPS

inductive PipelineAct
  /-- `ParsePacket` gets this message from `Recv` -/
  | message (data : Bytes)
  /-- a pass of `PacketQueueHandler`, with the answers of `time(0)` -/
  | pass (time : Nat → UInt64)

inductive PipelineEvent
  /-- a message, and the key it is decrypted with -/
  | message (data key : Bytes)
  /-- `packet_queue.back()` and `pop_back()` -/
  | popped (packet : BasePacket)

def pipelineStep (env : Env) (w : Worker) : PipelineAct → Worker × List PipelineEvent
  | .message data => (w.receive env data, [.message data (w.kcp.inboundKey env)])
  | .pass time =>
    let taken := if w.thread = .running then w.kcp.popBack else none
    ((packetQueueHandler env time w).1, taken.toList.map fun p => .popped p.1)

/-- The messages, decoded, without those that throw. -/
def decodable (env : Env) (l : List PipelineEvent) : List BasePacket :=
  l.filterMap fun
    | .message data key => (decrypted env data key).toOption
    | .popped _ => none

/-- The packets the handler thread popped. -/
def popped (l : List PipelineEvent) : List BasePacket :=
  l.filterMap fun
    | .message _ _ => none
    | .popped packet => some packet

@[simp] theorem decodable_append (env : Env) (l m : List PipelineEvent) :
    decodable env (l ++ m) = decodable env l ++ decodable env m := List.filterMap_append

@[simp] theorem popped_append (l m : List PipelineEvent) : popped (l ++ m) = popped l ++ popped m :=
  List.filterMap_append

variable {env : Env}

/-! ## One step -/

/-- What was waiting and what comes in is what goes out and what waits then. -/
theorem pipelineStep_conserves (w : Worker) (act : PipelineAct) :
    w.kcp.packetQueue.reverse ++ decodable env (pipelineStep env w act).2 =
      popped (pipelineStep env w act).2 ++ (pipelineStep env w act).1.kcp.packetQueue.reverse := by
  cases act with
  | message data =>
    simp only [pipelineStep, receive_kcp]
    cases h : decrypted env data (w.kcp.inboundKey env) <;> simp [decodable, popped, h, Except.toOption]
  | pass time =>
    simp only [pipelineStep, packetQueueHandler]
    by_cases hr : w.thread = .running
    · rcases w.kcp.popBack_cases with ⟨hq, hpop⟩ | ⟨packet, rest, hq, hpop⟩
      · simp only [hr, hpop, hq, ne_eq, not_true_eq_false, if_false, if_true]
        split <;> simp [decodable, popped, hq]
      · simp [hr, hpop, hq, decodable, popped, handlePacket_packetQueue]
    · simp [hr, decodable, popped]

/-! ## Every interleaving -/

theorem pipeline_conserves (w : Worker) (acts : List PipelineAct) :
    w.kcp.packetQueue.reverse ++ decodable env (Runs.log (pipelineStep env) w acts) =
      popped (Runs.log (pipelineStep env) w acts) ++
        (Runs.final (pipelineStep env) w acts).kcp.packetQueue.reverse := by
  induction acts generalizing w with
  | nil => simp [decodable, popped]
  | cons act acts ih =>
    have hstep := @pipelineStep_conserves env w act
    calc w.kcp.packetQueue.reverse ++ decodable env (Runs.log (pipelineStep env) w (act :: acts))
        = (w.kcp.packetQueue.reverse ++ decodable env (pipelineStep env w act).2) ++
            decodable env (Runs.log (pipelineStep env) (pipelineStep env w act).1 acts) := by simp
      _ = popped (pipelineStep env w act).2 ++ ((pipelineStep env w act).1.kcp.packetQueue.reverse ++
            decodable env (Runs.log (pipelineStep env) (pipelineStep env w act).1 acts)) := by simp [hstep]
      _ = _ := by simp [ih]

/-- **In order, none lost, none twice.** In any interleaving of messages and handler
passes on a client's connection, the packets popped are a prefix of the messages
that decode, and all of them once the queue is empty; a message that does not
decode leaves the client as it is. -/
theorem pipeline_in_order (env : Env) (ep : Endpoint) (now : Int) (acts : List PipelineAct) :
    let start := Worker.start env.platform ep now
    let l := Runs.log (pipelineStep env) start acts
    let w := Runs.final (pipelineStep env) start acts
    popped l <+: decodable env l ∧ (w.kcp.packetQueue = [] → popped l = decodable env l) ∧
      ∀ data e, decrypted env data (w.kcp.inboundKey env) = .error e →
        (pipelineStep env w (.message data)).1.kcp = w.kcp := by
  intro start l w
  have hall : decodable env l = popped l ++ w.kcp.packetQueue.reverse := pipeline_conserves start acts
  refine ⟨⟨_, hall.symm⟩, fun hempty => ?_, fun data e herror => ?_⟩
  · rw [hall, hempty, List.reverse_nil, List.append_nil]
  · show (w.receive env data).kcp = w.kcp
    rw [receive_kcp, herror]

end EyPS
