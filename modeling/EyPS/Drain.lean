/-
Whether `ParsePacket` drains a client's receive queue. It calls `Recv` once
for a datagram, and `Recv` takes out one message, and none of length zero; so
it does exactly where `ikcp_input` left at most one message, and no empty one.
-/
import EyPS.ClientTable
import EyPS.Pipeline
import EyPS.RecvBuffer

namespace EyPS

/-! ## The messages a control block holds -/

/-- What `ikcp_recv` leaves when it takes out the head message. -/
def Ikcpcb.taken (cb : Ikcpcb) : Ikcpcb := { cb with rcvQueue := (mergeFragments cb.rcvQueue).2 }.moved

def Ikcpcb.messagesFrom : Nat → Ikcpcb → List Bytes
  | 0, _ => []
  | fuel + 1, cb =>
    match headMessage cb.rcvQueue with
    | none => []
    | some m => m :: messagesFrom fuel cb.taken

/-- The segments held. -/
def Ikcpcb.held (cb : Ikcpcb) : Nat := cb.rcvBuf.length + cb.rcvQueue.length

/-- The complete messages: what one call of `ikcp_recv` after the other would take
out. Each takes a segment at least. -/
def Ikcpcb.messages (cb : Ikcpcb) : List Bytes := cb.messagesFrom cb.held

theorem moveAvailable_length (wnd : UInt32) (buf queue : List Seg) (nxt : UInt32) :
    (moveAvailable wnd buf queue nxt).1.length + (moveAvailable wnd buf queue nxt).2.1.length =
      buf.length + queue.length := by
  induction buf generalizing queue nxt with
  | nil => rfl
  | cons seg buf ih =>
    unfold moveAvailable
    split
    · rw [ih]
      simp
      omega
    · rfl

theorem taken_held_lt {cb : Ikcpcb} {m : Bytes} (h : headMessage cb.rcvQueue = some m) :
    cb.taken.held < cb.held := by
  have hmoved : cb.taken.held = cb.rcvBuf.length + (mergeFragments cb.rcvQueue).2.length :=
    moveAvailable_length _ _ _ _
  have hsplit := congrArg List.length (mergeFragments_snd cb.rcvQueue)
  have hhead := headFragments_length_pos (ne_nil_of_headMessage h)
  rw [List.length_append] at hsplit
  unfold Ikcpcb.held at hmoved ⊢
  omega

theorem messagesFrom_fuel {fuel fuel' : Nat} {cb : Ikcpcb} (h : cb.held ≤ fuel) (h' : cb.held ≤ fuel') :
    cb.messagesFrom fuel = cb.messagesFrom fuel' := by
  induction fuel generalizing fuel' cb with
  | zero =>
    have hnone : headMessage cb.rcvQueue = none := by
      cases hm : headMessage cb.rcvQueue with
      | none => rfl
      | some m =>
        have := taken_held_lt hm
        omega
    cases fuel' <;> simp [Ikcpcb.messagesFrom, hnone]
  | succ fuel ih =>
    cases hm : headMessage cb.rcvQueue with
    | none => cases fuel' <;> simp [Ikcpcb.messagesFrom, hm]
    | some m =>
      have hlt := taken_held_lt hm
      obtain ⟨n, rfl⟩ : ∃ n, fuel' = n + 1 := ⟨fuel' - 1, by omega⟩
      simp only [Ikcpcb.messagesFrom, hm]
      rw [@ih n cb.taken (by omega) (by omega)]

theorem messages_of_none {cb : Ikcpcb} (h : headMessage cb.rcvQueue = none) : cb.messages = [] := by
  unfold Ikcpcb.messages
  cases cb.held <;> simp [Ikcpcb.messagesFrom, h]

theorem messages_of_some {cb : Ikcpcb} {m : Bytes} (h : headMessage cb.rcvQueue = some m) :
    cb.messages = m :: cb.taken.messages := by
  have hlt := taken_held_lt h
  obtain ⟨n, hn⟩ : ∃ n, cb.held = n + 1 := ⟨cb.held - 1, by omega⟩
  unfold Ikcpcb.messages
  rw [hn, Ikcpcb.messagesFrom, h]
  simp only [List.cons.injEq, true_and]
  exact messagesFrom_fuel (by omega) (Nat.le_refl _)

theorem messages_eq_nil {cb : Ikcpcb} : cb.messages = [] ↔ headMessage cb.rcvQueue = none := by
  cases h : headMessage cb.rcvQueue with
  | none => simp [messages_of_none h]
  | some m => simp [messages_of_some h]

/-! ## One call of Recv -/

section Recv

variable {k : Kcp} {cb : Ikcpcb} {m : Bytes}

theorem recv_none (hk : k.kcp = some cb) (h : headMessage cb.rcvQueue = none) : k.recv = .ok ([], k) := by
  have hsize : Kcp.recvSize cb = none := by simp [Kcp.recvSize, ikcpPeeksize_eq, h]
  simp [Kcp.recv, hk, hsize]

/-- An empty message is never taken out. -/
theorem recv_empty (hk : k.kcp = some cb) (h : headMessage cb.rcvQueue = some []) : k.recv = .ok ([], k) := by
  have hsize : Kcp.recvSize cb = none := by simp [Kcp.recvSize, ikcpPeeksize_eq, h]
  simp [Kcp.recv, hk, hsize]

theorem recv_some (hk : k.kcp = some cb) (h : headMessage cb.rcvQueue = some m) (hm : m ≠ []) :
    k.recv = if Kcp.recvBufSize < m.length then .error .outOfBounds
      else .ok (m, { k with kcp := some cb.taken }) := by
  have hpos : 0 < m.length := List.length_pos_iff.mpr hm
  have hsize := recvSize_of_headMessage h hm
  have hrecv := ikcpRecv_headMessage h (Int.le_refl _)
  simp only [Kcp.recv, hk, hsize, hrecv]
  split
  · rfl
  · rw [if_pos (by omega)]
    rfl

end Recv

/-! ## One datagram -/

/-- `ParsePacket` returned, whatever exception it caught. -/
def ReturnsNormally (l : List ServerEvent) : Prop := ∀ e, .failed e ∈ l → e.isException = true

/-- From what `ikcp_input` left (`cb`), `ParsePacket` has drained the client: no
complete message is left, and those there were are in the queue, in order, as far
as they decode. -/
def Drained (env : Env) (cb : Ikcpcb) (k k' : Kcp) : Prop :=
  ∃ cb', k'.kcp = some cb' ∧ headMessage cb'.rcvQueue = none ∧ k'.packetQueue =
    (cb.messages.filterMap fun m => (decrypted env m (k.inboundKey env)).toOption).reverse ++ k.packetQueue

/-- At most one complete message, and no empty one. -/
def AtMostOneMessage (cb : Ikcpcb) : Prop := cb.messages.length ≤ 1 ∧ [] ∉ cb.messages

section Deliver

variable {env : Env} {d : Datagram} {k : Kcp} {cb : Ikcpcb}

/-- What `ParsePacket` does with a client after `Input`. -/
def takeMessage (env : Env) (k : Kcp) : Kcp × List ServerEvent :=
  match k.recv with
  | .error e => (k, [.failed e])
  | .ok (data, k) =>
    match k.queueMessage env data with
    | .error e => (k, [.failed e])
    | .ok k => (k, [])

/-- The client after `Input`. -/
def Kcp.afterInput (P : Platform) (d : Datagram) (k : Kcp) (cb : Ikcpcb) : Kcp :=
  { k with lastPacketTime := toLong P d.now, kcp := some (ikcpInput cb d.bytes).2 }

theorem deliver_connected (hs : k.state = .connected) (hk : k.kcp = some cb) :
    GameServer.deliver env d k = takeMessage env (k.afterInput env.platform d cb) := by
  have hinput : k.input env.platform d.now d.sendOk d.bytes =
      .ok ((ikcpInput cb d.bytes).1, k.afterInput env.platform d cb, none) := Kcp.input_connected hs hk d.bytes
  simp only [GameServer.deliver, hinput, Option.toList_none, List.map_nil, List.nil_append]
  rfl

theorem takeMessage_some {m : Bytes} (hk : k.kcp = some cb) (h : headMessage cb.rcvQueue = some m) (hm : m ≠ [])
    (hret : ReturnsNormally (takeMessage env k).2) :
    (takeMessage env k).1 = { k with
      kcp := some cb.taken
      packetQueue := (decrypted env m (k.inboundKey env)).toOption.toList ++ k.packetQueue } := by
  have hrecv := recv_some hk h hm
  unfold takeMessage at hret ⊢
  rw [hrecv] at hret ⊢
  by_cases hlong : Kcp.recvBufSize < m.length
  · -- more than the buffer of `Recv` holds: no normal return
    rw [if_pos hlong] at hret
    exact absurd (hret _ (List.mem_singleton_self _)) (by decide)
  · rw [if_neg hlong]
    dsimp only
    rw [queueMessage_eq _ hm]
    have hkey : ({ k with kcp := some cb.taken } : Kcp).inboundKey env = k.inboundKey env := rfl
    rw [hkey]
    cases decrypted env m (k.inboundKey env) <;> rfl

theorem takeMessage_drained_iff (hk : k.kcp = some cb) (hret : ReturnsNormally (takeMessage env k).2) :
    Drained env cb k (takeMessage env k).1 ↔ AtMostOneMessage cb := by
  cases hm : headMessage cb.rcvQueue with
  | none =>
    have htake : takeMessage env k = (k, []) := by simp [takeMessage, recv_none hk hm, Kcp.queueMessage]
    simp [htake, Drained, AtMostOneMessage, hk, hm, messages_of_none hm]
  | some m =>
    have hcons := messages_of_some hm
    by_cases hempty : m = []
    · -- an empty message stays at the head of the queue
      subst hempty
      have htake : takeMessage env k = (k, []) := by simp [takeMessage, recv_empty hk hm, Kcp.queueMessage]
      simp [htake, Drained, AtMostOneMessage, hk, hm, hcons]
    · have hdrained : Drained env cb k (takeMessage env k).1 ↔ cb.taken.messages = [] := by
        rw [takeMessage_some hk hm hempty hret, messages_eq_nil]
        constructor
        · rintro ⟨cb', hcb, hnone, -⟩
          cases hcb
          exact hnone
        · intro hnone
          refine ⟨cb.taken, rfl, hnone, ?_⟩
          rw [hcons, messages_of_none hnone]
          cases hd : decrypted env m (k.inboundKey env) <;> simp [hd, Except.toOption]
      rw [hdrained, AtMostOneMessage, hcons]
      cases cb.taken.messages <;> simp [hempty]

end Deliver

/-! ## Every session of a server -/

/-- What `Initialize` leaves and nothing undoes. -/
def Kcp.Connected (k : Kcp) : Prop := k.state = .connected ∧ ∃ cb, k.kcp = some cb

theorem recv_connected {k k' : Kcp} {data : Bytes} (hc : k.Connected) (h : k.recv = .ok (data, k')) :
    k'.Connected := by
  obtain ⟨cb, rfl⟩ := recv_eq_ok h
  exact ⟨hc.1, cb, rfl⟩

theorem queueMessage_connected {env : Env} {k k' : Kcp} {data : Bytes} (hc : k.Connected)
    (h : k.queueMessage env data = .ok k') : k'.Connected := by
  obtain ⟨queue, rfl⟩ := queueMessage_eq_ok h
  exact hc

theorem deliver_stays {env : Env} {d : Datagram} {k : Kcp} (hc : k.Connected) :
    (GameServer.deliver env d k).1.Connected := by
  obtain ⟨hs, cb, hk⟩ := hc
  have hafter : (k.afterInput env.platform d cb).Connected := ⟨hs, _, rfl⟩
  rw [deliver_connected hs hk]
  unfold takeMessage
  split
  · exact hafter
  next data k₂ hr =>
    have h₂ := recv_connected hafter hr
    split
    · exact h₂
    next k₃ hq => exact queueMessage_connected h₂ hq

/-- Every object of the server is connected. -/
def AllConnected (s : GameServer) : Prop := ∀ object ∈ s.objects, object.worker.kcp.Connected

theorem packetQueueHandler_connected {env : Env} {w : Worker} (time : Nat → UInt64) (h : w.kcp.Connected) :
    (packetQueueHandler env time w).1.kcp.Connected := by
  have hkeeps := @packetQueueHandler_keeps env _ (fun k => (k.state, k.kcp)) (fun _ _ _ _ _ => rfl) w time
  obtain ⟨hs, cb, hk⟩ := h
  exact ⟨(congrArg Prod.fst hkeeps).trans hs, cb, (congrArg Prod.snd hkeeps).trans hk⟩

theorem AllConnected.step {env : Env} {s : GameServer} (h : AllConnected s) (a : ServerAct) :
    AllConnected (s.step env a).1 :=
  GameServer.ForallClients.step env (fun _ _ => ⟨rfl, _, rfl⟩) (fun _ _ hk => deliver_stays hk)
    (fun time _ hw => packetQueueHandler_connected time hw) h a

/-- **A datagram is drained** exactly where `ikcp_input` leaves at most one complete
message, and no empty one: for every session of every server that has run. -/
theorem drained_iff (env : Env) (acts : List ServerAct) (d : Datagram) (client : Nat) (object : ClientObject)
    (hc : (Runs.final (GameServer.step env) .empty acts).clients d.ep.key = some client)
    (ho : (Runs.final (GameServer.step env) .empty acts).objects[client]? = some object)
    (hlive : object.destroyed = false)
    (hret : ReturnsNormally ((Runs.final (GameServer.step env) .empty acts).parsePacket env d).2) :
    ∃ cb object', object.worker.kcp.kcp = some cb ∧
      ((Runs.final (GameServer.step env) .empty acts).parsePacket env d).1.objects[client]? = some object' ∧
      (Drained env (ikcpInput cb d.bytes).2 object.worker.kcp object'.worker.kcp ↔
        AtMostOneMessage (ikcpInput cb d.bytes).2) := by
  have hall : AllConnected (Runs.final (GameServer.step env) .empty acts) :=
    Runs.inv AllConnected (fun _ a h => h.step a) (fun _ hmem => nomatch hmem)
  generalize Runs.final (GameServer.step env) .empty acts = s at hc ho hret hall ⊢
  obtain ⟨hs, cb, hk⟩ := hall object (List.mem_of_getElem? ho)
  have hparse : s.parsePacket env d = (s.setObject client { object with
      worker := { object.worker with kcp := (GameServer.deliver env d object.worker.kcp).1 } },
        .delivered client d.ep :: (GameServer.deliver env d object.worker.kcp).2) := by
    simp [GameServer.parsePacket, hc, ho, hlive]
  rw [hparse] at hret ⊢
  rw [deliver_connected hs hk] at hret ⊢
  have hret' : ReturnsNormally (takeMessage env (object.worker.kcp.afterInput env.platform d cb)).2 :=
    fun e he => hret e (List.mem_cons_of_mem _ he)
  refine ⟨cb, _, hk, List.getElem?_set_self (List.getElem?_eq_some_iff.mp ho).1, ?_⟩
  exact takeMessage_drained_iff (k := object.worker.kcp.afterInput env.platform d cb) rfl hret'

/-- A ping, as a client sends it. -/
def pingMessage : Bytes :=
  xorFrom Env.sample.dispatchKey 0 (BasePacket.encode Env.sample 0 [] Env.sample.ids.pingReq 0)

/-- A datagram of the client of `10.0.0.1:5001`, one segment with a ping for each of these numbers. -/
def Datagram.pings (sns : List UInt32) : Datagram where
  ep := ⟨0x0A000001, 5001⟩
  bytes := sns.flatMap fun sn => pushDatagram 0 0xFFCCEEBB 0 sn pingMessage
  now := 0
  sendOk := true

/-- The server once that client has connected. -/
def GameServer.sample : GameServer :=
  Runs.final (GameServer.step Env.sample) .empty [.datagram (.connect ⟨0x0A000001, 5001⟩ 0)]

theorem drained_iff_sample : ∃ cb object',
    (Kcp.accepted Env.sample.platform ⟨0x0A000001, 5001⟩ 0).kcp = some cb ∧
      (GameServer.sample.parsePacket Env.sample (.pings [0])).1.objects[0]? = some object' ∧
      (Drained Env.sample (ikcpInput cb (Datagram.pings [0]).bytes).2
        (Kcp.accepted Env.sample.platform ⟨0x0A000001, 5001⟩ 0) object'.worker.kcp ↔
          AtMostOneMessage (ikcpInput cb (Datagram.pings [0]).bytes).2) := by
  have hlog : (GameServer.sample.parsePacket Env.sample (.pings [0])).2 = [.delivered 0 ⟨0x0A000001, 5001⟩] := by
    decide +kernel
  refine drained_iff Env.sample [.datagram (.connect ⟨0x0A000001, 5001⟩ 0)] (.pings [0]) 0
    ⟨⟨Kcp.accepted Env.sample.platform ⟨0x0A000001, 5001⟩ 0, .running⟩, false⟩ (by decide +kernel)
    (by decide +kernel) rfl fun e he => ?_
  have he : .failed e ∈ (GameServer.sample.parsePacket Env.sample (.pings [0])).2 := he
  rw [hlog] at he
  simp at he

/-- Two pings in one datagram: `ParsePacket` returns, one ping is in the queue, and
the other still in the receive queue. -/
theorem second_message_stays :
    let s' := (GameServer.sample.parsePacket Env.sample (.pings [0, 1])).1
    (GameServer.sample.parsePacket Env.sample (.pings [0, 1])).2 = [.delivered 0 ⟨0x0A000001, 5001⟩] ∧
      ∃ object object' cb cb', GameServer.sample.objects[0]? = some object ∧ s'.objects[0]? = some object' ∧
        object.worker.kcp.kcp = some cb ∧ object'.worker.kcp.kcp = some cb' ∧
        headMessage cb'.rcvQueue = some pingMessage ∧ object'.worker.kcp.packetQueue.length = 1 ∧
        ¬ Drained Env.sample (ikcpInput cb (Datagram.pings [0, 1]).bytes).2 object.worker.kcp object'.worker.kcp := by
  intro s'
  have hlog : (GameServer.sample.parsePacket Env.sample (.pings [0, 1])).2 =
      [.delivered 0 ⟨0x0A000001, 5001⟩] := by decide +kernel
  have hbefore : GameServer.sample.objects =
      [⟨⟨Kcp.accepted Env.sample.platform ⟨0x0A000001, 5001⟩ 0, .running⟩, false⟩] := by decide +kernel
  have hafter : s'.objects.map (fun o => (o.worker.kcp.kcp.map (headMessage ·.rcvQueue),
      o.worker.kcp.packetQueue.length)) = [(some (some pingMessage), 1)] := by decide +kernel
  obtain ⟨object', hobject, hafter⟩ := List.map_eq_singleton_iff.mp hafter
  obtain ⟨hqueue, hlen⟩ := Prod.mk.inj hafter
  obtain ⟨cb', hcb, hhead⟩ := Option.map_eq_some_iff.mp hqueue
  refine ⟨hlog, _, object', _, cb', by rw [hbefore]; rfl, by rw [hobject]; rfl, rfl, hcb, hhead, hlen, ?_⟩
  rintro ⟨cb'', hcb'', hnone, -⟩
  rw [hcb] at hcb''
  cases hcb''
  rw [hhead] at hnone
  cases hnone

end EyPS
