/-
The client table as the steps see it: whose the objects are and which are
deleted (`Session`), what one step does to it, and the events of the log that
are about it. The sessions are the ones the log says were created, each under
its endpoint's key (`Recorded`).
-/
import EyPS.GameServer

namespace EyPS

/-! ## What a step does to the table -/

/-- What the table is about: whose the objects are, and which are deleted. -/
structure Session where
  ep : Endpoint
  ended : Bool
  deriving DecidableEq

def ClientObject.session (object : ClientObject) : Session := ⟨object.worker.kcp.endpoint, object.destroyed⟩

def GameServer.sessions (s : GameServer) : List Session := s.objects.map ClientObject.session

/-- The events about the table. -/
def ServerEvent.ofTable : ServerEvent → Bool
  | .created _ _ | .delivered _ _ | .destroyed _ => true
  | _ => false

section Sessions

variable {env : Env} {s : GameServer}

@[simp] theorem addClient_clients {key object} :
    (s.addClient key object).clients = Function.update s.clients key (some s.objects.length) := rfl

@[simp] theorem addClient_sessions {key object} :
    (s.addClient key object).sessions = s.sessions ++ [object.session] := by
  simp [GameServer.sessions, GameServer.addClient]

@[simp] theorem setObject_clients {client object} : (s.setObject client object).clients = s.clients := rfl

@[simp] theorem setObject_sessions {client object} :
    (s.setObject client object).sessions = s.sessions.set client object.session := by
  simp [GameServer.sessions, GameServer.setObject, List.map_set]

@[simp] theorem sessions_length : s.sessions.length = s.objects.length := List.length_map _

@[simp] theorem sessions_getElem? {client : Nat} :
    s.sessions[client]? = s.objects[client]?.map ClientObject.session := List.getElem?_map

/-- An update that keeps the session keeps all of them. -/
theorem setObject_same {client object object'} (ho : s.objects[client]? = some object)
    (hs : object'.session = object.session) : (s.setObject client object').sessions = s.sessions := by
  have hsession : s.sessions[client]? = some object.session := by rw [sessions_getElem?, ho, Option.map_some]
  obtain ⟨hlt, hget⟩ := List.getElem?_eq_some_iff.mp hsession
  rw [setObject_sessions, hs, ← hget, List.set_getElem_self]

end Sessions

theorem input_endpoint {P : Platform} {now sendOk bytes} {k k' : Kcp} {st reply}
    (h : k.input P now sendOk bytes = .ok (st, k', reply)) : k'.endpoint = k.endpoint := by
  unfold Kcp.input Kcp.inputCalls at h
  dsimp only at h
  split at h
  all_goals try (cases h; rfl)
  next => split at h <;> cases h; rfl
  next => split at h <;> cases h; rfl

/-- `Recv` writes the control block and nothing else. -/
theorem recv_eq_ok {k k' : Kcp} {data} (h : k.recv = .ok (data, k')) :
    ∃ cb, k' = { k with kcp := some cb } := by
  unfold Kcp.recv at h
  split at h
  · cases h
  next cb hk =>
    split at h
    · cases h
      exact ⟨cb, by rw [← hk]⟩
    · dsimp only at h
      split at h
      · cases h
      · split at h <;> cases h <;> exact ⟨_, rfl⟩

theorem recv_endpoint {k k' : Kcp} {data} (h : k.recv = .ok (data, k')) : k'.endpoint = k.endpoint := by
  obtain ⟨cb, rfl⟩ := recv_eq_ok h
  rfl

/-- And what follows it the queue and nothing else. -/
theorem queueMessage_eq_ok {env : Env} {data} {k k' : Kcp} (h : k.queueMessage env data = .ok k') :
    ∃ queue, k' = { k with packetQueue := queue } := by
  unfold Kcp.queueMessage at h
  split at h
  · cases h
    exact ⟨k.packetQueue, rfl⟩
  · obtain ⟨plain, -, h⟩ := bind_eq_ok.mp h
    obtain ⟨packet, -, h⟩ := bind_eq_ok.mp h
    cases h
    exact ⟨packet :: k.packetQueue, rfl⟩

theorem queueMessage_endpoint {env : Env} {data} {k k' : Kcp} (h : k.queueMessage env data = .ok k') :
    k'.endpoint = k.endpoint := by
  obtain ⟨queue, rfl⟩ := queueMessage_eq_ok h
  rfl

/-- `ParsePacket` on a known client changes no session, and logs no table event
of its own. -/
theorem deliver_session (env : Env) (d : Datagram) (k : Kcp) :
    (GameServer.deliver env d k).1.endpoint = k.endpoint ∧
      (GameServer.deliver env d k).2.filter ServerEvent.ofTable = [] := by
  have hreplies : ∀ reply : Option Bytes,
      (reply.toList.map (ServerEvent.replied d.ep)).filter ServerEvent.ofTable = [] := by
    intro reply
    cases reply <;> simp [ServerEvent.ofTable]
  unfold GameServer.deliver
  split
  next => exact ⟨rfl, by simp [ServerEvent.ofTable]⟩
  next k₁ reply hi =>
    have h₁ := input_endpoint hi
    dsimp only
    split
    next => exact ⟨h₁, by simp [ServerEvent.ofTable]⟩
    next data k₂ hr =>
      have h₂ := (recv_endpoint hr).trans h₁
      split
      next => exact ⟨h₂, by simp [ServerEvent.ofTable]⟩
      next k₃ hq => exact ⟨(queueMessage_endpoint hq).trans h₂, hreplies reply⟩

section Steps

variable (env : Env) {s : GameServer} {d : Datagram}

/-- A handshake that is answered makes an object for its sender. -/
theorem accept_opens (h : d.opens) : s.accept env d =
    (s.addClient d.ep.key ⟨⟨Kcp.accepted env.platform d.ep d.now, .running⟩, false⟩,
      [.created s.objects.length d.ep, .delivered s.objects.length d.ep,
        .replied d.ep (Kcp.handshakeReply d.now)]) := by
  obtain ⟨hs, hdec⟩ := decode_handshake env.platform d.bytes
  have hyes : decide (ConnectHandshake d.bytes) = true := decide_eq_true h.1
  rw [hyes] at hdec
  unfold GameServer.accept
  rw [hdec]
  simp [Kcp.input, Kcp.inputCalls, Except.map, List.findSome?, Kcp.InputCall.sent,
    Kcp.acceptNonblock, Kcp.accepted, Endpoint.key, h.2]

/-- Anything else leaves the table alone. -/
theorem accept_not_opens (h : ¬ d.opens) :
    (s.accept env d).1 = s ∧ (s.accept env d).2.filter ServerEvent.ofTable = [] := by
  obtain ⟨hs, hdec⟩ := decode_handshake env.platform d.bytes
  unfold GameServer.accept
  rw [hdec]
  cases hc : decide (ConnectHandshake d.bytes) with
  | false => exact ⟨rfl, rfl⟩
  | true =>
    have hsend : d.sendOk = false := by
      rw [← Bool.not_eq_true]
      exact fun hsend => h ⟨of_decide_eq_true hc, hsend⟩
    simp [Kcp.input, Kcp.inputCalls, Except.map, Kcp.acceptNonblock, hsend, ServerEvent.ofTable]

/-- A datagram of a known key goes to the object of that key. -/
theorem parsePacket_known {client : Nat} (hc : s.clients d.ep.key = some client) :
    (s.parsePacket env d).1.clients = s.clients ∧ (s.parsePacket env d).1.sessions = s.sessions ∧
      (s.parsePacket env d).2.filter ServerEvent.ofTable = [.delivered client d.ep] := by
  have hlt : client < s.objects.length := s.valid _ _ hc
  obtain ⟨object, ho⟩ : ∃ object, s.objects[client]? = some object := ⟨_, List.getElem?_eq_getElem hlt⟩
  unfold GameServer.parsePacket
  rw [hc]
  simp only [ho]
  split
  next => exact ⟨rfl, rfl, rfl⟩
  next =>
    obtain ⟨hep, hev⟩ := deliver_session env d object.worker.kcp
    refine ⟨rfl, setObject_same ho ?_, ?_⟩
    · simp [ClientObject.session, hep]
    · rw [List.filter_cons_of_pos rfl, hev]

theorem parsePacket_unknown (hc : s.clients d.ep.key = none) : s.parsePacket env d = s.accept env d := by
  unfold GameServer.parsePacket
  rw [hc]

/-- A handler pass leaves the table alone. -/
theorem handler_table (client : Nat) (time : Nat → UInt64) :
    (s.handler env client time).1.clients = s.clients ∧ (s.handler env client time).1.sessions = s.sessions ∧
      (s.handler env client time).2.filter ServerEvent.ofTable = [] := by
  unfold GameServer.handler
  split
  next => exact ⟨rfl, rfl, rfl⟩
  next object ho =>
    split
    next => exact ⟨rfl, rfl, rfl⟩
    next =>
      refine ⟨rfl, setObject_same ho ?_, ?_⟩
      · simp [ClientObject.session, packetQueueHandler_endpoint]
      · simp [ServerEvent.ofTable]

/-! ## A property of every client -/

section Clients

variable {Q : Kcp → Prop}

/-- The connection of every object, deleted or not, has the property. -/
def GameServer.ForallClients (s : GameServer) (Q : Kcp → Prop) : Prop :=
  ∀ object ∈ s.objects, Q object.worker.kcp

theorem GameServer.ForallClients.set (h : s.ForallClients Q) {client : Nat} {object : ClientObject}
    (ho : Q object.worker.kcp) : (s.setObject client object).ForallClients Q := by
  intro x hx
  rcases List.mem_or_eq_of_mem_set hx with hx | rfl
  · exact h x hx
  · exact ho

/-- One that a new connection has and datagrams and handler passes keep is kept by
every step. -/
theorem GameServer.ForallClients.step (hnew : ∀ ep now, Q (Kcp.accepted env.platform ep now))
    (hdeliver : ∀ d k, Q k → Q (GameServer.deliver env d k).1)
    (hhandler : ∀ time w, Q w.kcp → Q (packetQueueHandler env time w).1.kcp)
    (h : s.ForallClients Q) (a : ServerAct) : (s.step env a).1.ForallClients Q := by
  cases a with
  | datagram d =>
    show (s.parsePacket env d).1.ForallClients Q
    cases hc : s.clients d.ep.key with
    | none =>
      rw [parsePacket_unknown env hc]
      by_cases hopens : d.opens
      · rw [accept_opens env hopens]
        refine List.forall_mem_append.mpr ⟨h, fun object hobject => ?_⟩
        obtain rfl := List.mem_singleton.mp hobject
        exact hnew d.ep d.now
      · rw [(accept_not_opens env hopens).1]
        exact h
    | some client =>
      unfold GameServer.parsePacket
      rw [hc]
      dsimp only
      split
      · exact h
      next object ho =>
        split
        · exact h
        · exact h.set (hdeliver d _ (h object (List.mem_of_getElem? ho)))
  | handler client time =>
    show (s.handler env client time).1.ForallClients Q
    unfold GameServer.handler
    split
    · exact h
    next object ho =>
      split
      · exact h
      · exact h.set (hhandler time _ (h object (List.mem_of_getElem? ho)))
  | background client now =>
    show (s.background client now).1.ForallClients Q
    unfold GameServer.background
    split
    · exact h
    next object ho =>
      split
      · exact h.set (h object (List.mem_of_getElem? ho))
      · exact h

end Clients

/-- A table event is logged by a step exactly if it is among its table events. -/
theorem mem_ofTable {e : ServerEvent} (h : e.ofTable = true) {l : List ServerEvent} :
    e ∈ l ↔ e ∈ l.filter ServerEvent.ofTable := by
  rw [List.mem_filter, and_iff_left h]

/-- What `ParsePacket` creates: an object for an answered handshake under a free
key. -/
theorem created_mem_iff {s : GameServer} {d : Datagram} (client : Nat) (ep : Endpoint) :
    .created client ep ∈ (s.parsePacket env d).2 ↔
      (s.clients d.ep.key = none ∧ d.opens) ∧ client = s.objects.length ∧ ep = d.ep := by
  cases hc : s.clients d.ep.key with
  | some c =>
    obtain ⟨-, -, hev⟩ := parsePacket_known env hc
    rw [mem_ofTable rfl, hev]
    simp
  | none =>
    rw [parsePacket_unknown env hc]
    by_cases ho : d.opens
    · rw [accept_opens env ho]
      simp [ho]
    · obtain ⟨-, hev⟩ := accept_not_opens env ho (s := s)
      rw [mem_ofTable rfl, hev]
      simp [ho]

/-- What it delivers, to the object under the sender's key or to the one it
creates. -/
theorem delivered_iff {s : GameServer} {d : Datagram} {client : Nat} {ep : Endpoint} :
    .delivered client ep ∈ (s.parsePacket env d).2 ↔
      ep = d.ep ∧ (s.clients d.ep.key = some client ∨ .created client ep ∈ (s.parsePacket env d).2) := by
  rw [created_mem_iff]
  cases hc : s.clients d.ep.key with
  | some c =>
    obtain ⟨-, -, hev⟩ := parsePacket_known env hc
    rw [mem_ofTable rfl, hev]
    simp [eq_comm, and_comm]
  | none =>
    rw [parsePacket_unknown env hc]
    by_cases ho : d.opens
    · rw [accept_opens env ho]
      simp [ho, and_comm]
    · obtain ⟨-, hev⟩ := accept_not_opens env ho (s := s)
      rw [mem_ofTable rfl, hev]
      simp [ho]

end Steps

/-! ## Sessions and the events of their creation -/

/-- The endpoint an object was made for. -/
def GameServer.endpointOf (s : GameServer) (client : Nat) : Option Endpoint :=
  s.sessions[client]?.map Session.ep

theorem endpointOf_of_lt {s : GameServer} {client : Nat} (h : client < s.objects.length) :
    ∃ ep, s.endpointOf client = some ep := by
  rw [← sessions_length] at h
  exact ⟨_, by rw [GameServer.endpointOf, List.getElem?_eq_getElem h, Option.map_some]⟩

/-- The objects are those created, each stored under its endpoint's key. -/
structure Recorded (s : GameServer) (l : List ServerEvent) : Prop where
  created : ∀ client ep, .created client ep ∈ l ↔ s.endpointOf client = some ep
  stored : ∀ client ep, s.endpointOf client = some ep → s.clients ep.key = some client

theorem Recorded.empty : Recorded .empty [] where
  created := by simp [GameServer.endpointOf, GameServer.empty, GameServer.sessions]
  stored := by simp [GameServer.endpointOf, GameServer.empty, GameServer.sessions]

/-- A step that leaves the table and the endpoints alone, and creates nothing. -/
theorem Recorded.same {s s' : GameServer} {l l' : List ServerEvent} (h : Recorded s l)
    (hc : s'.clients = s.clients) (hs : s'.endpointOf = s.endpointOf)
    (hl : ∀ client ep, .created client ep ∉ l') : Recorded s' (l ++ l') where
  created := by
    intro client ep
    rw [List.mem_append, or_iff_left (hl client ep), hs]
    exact h.created client ep
  stored := by
    rw [hs, hc]
    exact h.stored

theorem endpointOf_congr {s s' : GameServer} (h : s'.sessions = s.sessions) : s'.endpointOf = s.endpointOf := by
  funext client
  rw [GameServer.endpointOf, GameServer.endpointOf, h]

/-- A new object is the next one, and its endpoint's. -/
theorem endpointOf_addClient {s : GameServer} {key : UInt32} {object : ClientObject} {client : Nat}
    {ep : Endpoint} : (s.addClient key object).endpointOf client = some ep ↔
      s.endpointOf client = some ep ∨ (client = s.objects.length ∧ ep = object.session.ep) := by
  rw [GameServer.endpointOf, GameServer.endpointOf, addClient_sessions, ← sessions_length]
  rcases Nat.lt_trichotomy client s.sessions.length with hlt | heq | hgt
  · rw [List.getElem?_append_left hlt, or_iff_left fun h => absurd h.1 (by omega)]
  · subst heq
    simp [eq_comm]
  · have hnone : s.sessions[client]? = none := List.getElem?_eq_none (by omega)
    have hnone' : (s.sessions ++ [object.session])[client]? = none :=
      List.getElem?_eq_none (by rw [List.length_append, List.length_singleton]; omega)
    rw [hnone, hnone', or_iff_left fun h => absurd h.1 (by omega)]

/-- A new object under a free key. -/
theorem Recorded.add {s : GameServer} {l l' : List ServerEvent} (h : Recorded s l) {ep : Endpoint}
    {object : ClientObject} (hep : object.session.ep = ep) (hk : s.clients ep.key = none)
    (hl : ∀ client e, .created client e ∈ l' ↔ client = s.objects.length ∧ e = ep) :
    Recorded (s.addClient ep.key object) (l ++ l') where
  created := by
    intro client e
    rw [List.mem_append, h.created client e, hl client e, endpointOf_addClient, hep]
  stored := by
    intro client e he
    rw [addClient_clients]
    rcases endpointOf_addClient.mp he with hold | ⟨rfl, rfl⟩
    · have hstored := h.stored client e hold
      have hne : e.key ≠ ep.key := by
        intro hkey
        rw [hkey, hk] at hstored
        cases hstored
      rw [Function.update_of_ne hne, hstored]
    · rw [hep, Function.update_self]

theorem Recorded.parsePacket {env : Env} {s : GameServer} {l : List ServerEvent} (h : Recorded s l)
    (d : Datagram) : Recorded (s.parsePacket env d).1 (l ++ (s.parsePacket env d).2) := by
  by_cases hnew : s.clients d.ep.key = none ∧ d.opens
  · have hev := created_mem_iff env (s := s) (d := d)
    rw [parsePacket_unknown env hnew.1, accept_opens env hnew.2] at hev ⊢
    exact h.add rfl hnew.1 fun client ep => (hev client ep).trans (and_iff_right hnew)
  · have hev : ∀ client ep, .created client ep ∉ (s.parsePacket env d).2 := fun client ep hmem =>
      hnew ((created_mem_iff env client ep).mp hmem).1
    cases hc : s.clients d.ep.key with
    | some client =>
      obtain ⟨hclients, hsessions, -⟩ := parsePacket_known env hc
      exact h.same hclients (endpointOf_congr hsessions) hev
    | none =>
      have hs : (s.parsePacket env d).1 = s := by
        rw [parsePacket_unknown env hc]
        exact (accept_not_opens env fun ho => hnew ⟨hc, ho⟩).1
      exact h.same (by rw [hs]) (by rw [hs]) hev

end EyPS
