/-
`game/GameServer`: the client table `g_Clients` and `ParsePacket`, with the two
threads of every client (`PacketQueueHandler`, `Background`) stepping beside it.

The `Kcp` objects live in a heap of their own (`objects`, by creation), as
the table's `shared_ptr`s and the `delete this` of `Background` do not know
of each other. A step with undefined behaviour is logged (`failed`) and
leaves the state as it was; an exception is logged the same way, as
`ParsePacket` does.
-/
import EyPS.PacketQueue
import Mathlib.Logic.Function.Basic

namespace EyPS

/-- What `AsyncRec` hands to `ParsePacket`: the sender (`m_ep`) and the bytes;
the time, and whether the socket can send. -/
structure Datagram where
  ep : Endpoint
  bytes : Bytes
  now : Int
  sendOk : Bool
  deriving DecidableEq

/-- `ip_port_num`, a 32-bit sum. -/
def Endpoint.key (ep : Endpoint) : UInt32 := ep.address + ep.port.toUInt32

/-- A `Kcp` object with its handler thread. -/
structure ClientObject where
  worker : Worker
  /-- `Background` has deleted it -/
  destroyed : Bool
  deriving DecidableEq

structure GameServer where
  /-- `g_Clients`, as places in `objects` -/
  clients : UInt32 → Option Nat
  objects : List ClientObject
  valid : ∀ key client, clients key = some client → client < objects.length

inductive ServerEvent
  /-- a `Kcp` object was made by a handshake from this endpoint and stored -/
  | created (client : Nat) (ep : Endpoint)
  /-- a datagram from this endpoint was passed to the object's `Input` -/
  | delivered (client : Nat) (ep : Endpoint)
  | replied (ep : Endpoint) (bytes : Bytes)
  /-- an effect of the object's handler thread -/
  | thread (client : Nat) (event : Event)
  | destroyed (client : Nat)
  | failed (e : Err)
  deriving DecidableEq

inductive ServerAct
  | datagram (d : Datagram)
  /-- a pass of the object's `PacketQueueHandler` -/
  | handler (client : Nat) (time : Nat → UInt64)
  /-- an iteration of the object's `Background` -/
  | background (client : Nat) (now : Int)

namespace GameServer

def empty : GameServer := { clients := fun _ => none, objects := [], valid := fun _ _ h => nomatch h }

/-- The object at this place becomes `object`. -/
def setObject (s : GameServer) (client : Nat) (object : ClientObject) : GameServer where
  clients := s.clients
  objects := s.objects.set client object
  valid := by simpa using s.valid

/-- A new object, stored under this key. -/
def addClient (s : GameServer) (key : UInt32) (object : ClientObject) : GameServer where
  clients := Function.update s.clients key (some s.objects.length)
  objects := s.objects ++ [object]
  valid := by
    intro k client h
    rw [List.length_append, List.length_singleton]
    by_cases hk : k = key
    · subst hk
      rw [Function.update_self, Option.some.injEq] at h
      omega
    · rw [Function.update_of_ne hk] at h
      have hlt := s.valid k client h
      omega

/-- `ParsePacket` for a client in the table: `Input`, `Recv`, and the message
to the queue. -/
def deliver (env : Env) (d : Datagram) (client : Kcp) : Kcp × List ServerEvent :=
  match client.input env.platform d.now d.sendOk d.bytes with
  | .error e => (client, [.failed e])
  | .ok (_, client, reply) =>
    let replies := reply.toList.map (.replied d.ep)
    match client.recv with
    | .error e => (client, replies ++ [.failed e])
    | .ok (data, client) =>
      match client.queueMessage env data with
      | .error e => (client, replies ++ [.failed e])
      | .ok client => (client, replies)

/-- `ParsePacket` for an unknown client: a handshake makes an object, and it is
stored once its `Input` has returned. Where `Input` throws, the object is
released while the exception is on its way to the handler, and `ikcp_release`
asserts that there is a control block: this is the model of a build with
`NDEBUG`, where the exception is caught; one without aborts there. -/
def accept (env : Env) (s : GameServer) (d : Datagram) : GameServer × List ServerEvent :=
  match Handshake.new.decode env.platform (BufferView.new d.bytes) with
  | .error e => (s, [.failed e])
  | .ok (false, _) => (s, [])
  | .ok (true, _) =>
    match (Kcp.new d.ep).acceptNonblock.input env.platform d.now d.sendOk d.bytes with
    | .error e => (s, [.failed e])
    | .ok (_, kcp, reply) =>
      let kcp := { kcp with ipPortNum := d.ep.key }
      (s.addClient d.ep.key ⟨⟨kcp, .running⟩, false⟩,
        [.created s.objects.length d.ep, .delivered s.objects.length d.ep] ++
          reply.toList.map (.replied d.ep))

/-- `ParsePacket`. -/
def parsePacket (env : Env) (s : GameServer) (d : Datagram) : GameServer × List ServerEvent :=
  match s.clients d.ep.key with
  | none => s.accept env d
  | some client =>
    match s.objects[client]? with
    -- not so: `valid`
    | none => (s, [])
    | some object =>
      if object.destroyed then (s, [.delivered client d.ep, .failed .useAfterFree])
      else
        let (kcp, events) := deliver env d object.worker.kcp
        (s.setObject client { object with worker := { object.worker with kcp } },
          .delivered client d.ep :: events)

/-- The handler thread of an object. -/
def handler (env : Env) (s : GameServer) (client : Nat) (time : Nat → UInt64) :
    GameServer × List ServerEvent :=
  match s.objects[client]? with
  | none => (s, [])
  | some object =>
    if object.destroyed then (s, [.failed .useAfterFree])
    else
      let (worker, events) := packetQueueHandler env time object.worker
      (s.setObject client { object with worker }, events.map (.thread client))

/-- An iteration of `Background`: an idle session is deleted, and its thread
ends. What `ikcp_update` sends is left out. -/
def background (s : GameServer) (client : Nat) (now : Int) : GameServer × List ServerEvent :=
  match s.objects[client]? with
  | none => (s, [])
  | some object =>
    if !object.destroyed && object.worker.kcp.idle now then
      (s.setObject client { object with destroyed := true }, [.destroyed client])
    else (s, [])

def step (env : Env) (s : GameServer) : ServerAct → GameServer × List ServerEvent
  | .datagram d => s.parsePacket env d
  | .handler client time => s.handler env client time
  | .background client now => s.background client now

end GameServer

/-! ## The connect handshake -/

/-- A valid connect handshake: 20 bytes or more, with the two magic numbers. -/
def ConnectHandshake (bytes : Bytes) : Prop :=
  20 ≤ bytes.length ∧ bytes.take 4 = [0, 0, 0, 0xFF] ∧ (bytes.drop 16).take 4 = [0xFF, 0xFF, 0xFF, 0xFF]

instance (bytes : Bytes) : Decidable (ConnectHandshake bytes) :=
  inferInstanceAs (Decidable (_ ∧ _ ∧ _))

/-- The big-endian number at this place of a view. -/
def beAt (bytes : Bytes) (offset : Nat) : Nat := fromLE ((bytes.drop offset).take 4).reverse

/-- A read inside the view. -/
theorem read_ok (P : Platform) {v : BufferView} (hlen : v.curDataOffset + 4 ≤ v.dataView.length)
    (hoff : v.curDataOffset + 4 < 2 ^ 32) :
    v.read P 4 true = .ok (beAt v.dataView v.curDataOffset,
      { v with curDataOffset := v.curDataOffset + 4 }) := by
  have hwrap : v.curDataOffset + 4 < 2 ^ P.sizeT := Nat.lt_of_lt_of_le hoff P.two_pow_32_le
  simp [BufferView.read, BufferView.readView_eq hwrap, hlen, bind, Except.bind, pure, Except.pure, ordered,
    beAt]

theorem beAt_lt (bytes : Bytes) (offset : Nat) : beAt bytes offset < 2 ^ 32 := by
  have hlt := fromLE_lt ((bytes.drop offset).take 4).reverse
  have hlen : ((bytes.drop offset).take 4).reverse.length ≤ 4 := by
    rw [List.length_reverse, List.length_take]
    omega
  calc beAt bytes offset < 256 ^ _ := hlt
    _ ≤ 256 ^ 4 := Nat.pow_le_pow_right (by omega) hlen
    _ = 2 ^ 32 := by decide

/-- Four bytes are told by their number. -/
theorem beAt_eq_iff {bytes : Bytes} {offset : Nat} (four : Bytes) (hlen : offset + 4 ≤ bytes.length)
    (hfour : four.length = 4) :
    beAt bytes offset = fromLE four.reverse ↔ (bytes.drop offset).take 4 = four := by
  constructor
  · intro h
    have hl : ((bytes.drop offset).take 4).reverse.length = four.reverse.length := by
      simp [hfour]
      omega
    exact List.reverse_injective (fromLE_inj hl h)
  · rintro rfl
    rfl

/-- `Handshake::Decode` accepts exactly the connect handshakes, and throws on
nothing. -/
theorem decode_handshake (P : Platform) (bytes : Bytes) :
    ∃ h, Handshake.new.decode P (BufferView.new bytes) = .ok (decide (ConnectHandshake bytes), h) := by
  by_cases hlen : bytes.length < 20
  · have hno : ¬ ConnectHandshake bytes := fun h => absurd h.1 (by omega)
    exact ⟨.new, by simp [Handshake.decode, BufferView.new, Handshake.len, hlen, hno]⟩
  · have hread : ∀ offset, offset ≤ 16 → (⟨bytes, offset, []⟩ : BufferView).read P 4 true =
        .ok (beAt bytes offset, ⟨bytes, offset + 4, []⟩) := fun offset ho =>
      read_ok P (v := ⟨bytes, offset, []⟩) (by dsimp only; omega) (by dsimp only; omega)
    have hmagic : ∀ (offset : Nat) (n : UInt32),
        UInt32.ofNat (beAt bytes offset) = n ↔ beAt bytes offset = n.toNat := by
      intro offset n
      rw [← UInt32.toNat_inj, UInt32.toNat_ofNat', Nat.mod_eq_of_lt (beAt_lt bytes offset)]
    have hfirst : beAt bytes 0 = 0xFF ↔ bytes.take 4 = [0, 0, 0, 0xFF] :=
      beAt_eq_iff [0, 0, 0, 0xFF] (by omega) rfl
    have hlast : beAt bytes 16 = 0xFFFFFFFF ↔ (bytes.drop 16).take 4 = [0xFF, 0xFF, 0xFF, 0xFF] :=
      beAt_eq_iff [0xFF, 0xFF, 0xFF, 0xFF] (by omega) rfl
    have hiff : (beAt bytes 0 = 0xFF ∧ beAt bytes 16 = 0xFFFFFFFF) ↔ ConnectHandshake bytes := by
      rw [ConnectHandshake, hfirst, hlast, and_iff_right (show 20 ≤ bytes.length by omega)]
    simp [Handshake.decode, BufferView.new, Handshake.len, hlen, hread, bind, Except.bind, pure, Except.pure,
      Handshake.magicConnect, hmagic]
    rw [← Bool.decide_and, decide_eq_decide]
    exact hiff

/-- The datagram is a connect handshake that is answered. -/
def Datagram.opens (d : Datagram) : Prop := ConnectHandshake d.bytes ∧ d.sendOk = true

instance (d : Datagram) : Decidable d.opens := inferInstanceAs (Decidable (_ ∧ _))

/-- The connect handshake a client sends: the magic numbers around conversation
id, token and data 0. -/
def connectBytes : Bytes := [0, 0, 0, 0xFF] ++ List.replicate 12 0 ++ [0xFF, 0xFF, 0xFF, 0xFF]

/-- Its datagram, answered. -/
def Datagram.connect (ep : Endpoint) (now : Int) : Datagram :=
  { ep, bytes := connectBytes, now, sendOk := true }

theorem Datagram.connect_opens (ep : Endpoint) (now : Int) : (Datagram.connect ep now).opens := by
  constructor
  · show ConnectHandshake connectBytes
    decide
  · rfl

end EyPS
