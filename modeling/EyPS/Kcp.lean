/-
`game/Kcp`: the per-client object of the game server. The handshake codec,
`Input` and `Recv` on the receive path, and the test its background loop
makes. What its packet handler thread does is in `EyPS.Handlers`.

Reads of the clock (`time(0)`) and the outcome of a socket send are inputs
of each call. `startTime`, the context pointer (its endpoint is the object's
own) and the thread handles are left out: nothing reads them.
-/
import EyPS.Packet
import EyPS.Ikcp

namespace EyPS

/-- An IPv4 `asio::ip::udp::endpoint`. -/
structure Endpoint where
  address : UInt32
  port : UInt16
  deriving DecidableEq

inductive ConnectionState
  | closed
  | disconnected
  | handshakeConnect
  | handshakeWait
  | connected
  deriving DecidableEq

inductive SessionState
  | inactive
  | waitingForToken
  | waitingForLogin
  | pickingCharacter
  | active
  deriving DecidableEq

/-- An integer assigned to a `long`. -/
def toLong (P : Platform) (x : Int) : Int := Int.bmod x (2 ^ P.long)

/-! ## Handshake -/

/-- `Handshake`, with the buffer `Encode` appends to. -/
structure Handshake where
  magic1 : Int32
  conv : UInt32
  token : UInt32
  data : Int32
  magic2 : Int32
  buffer : DynamicBuffer

namespace Handshake

def len : Nat := 20
def magicConnect : UInt32 × UInt32 := (0xFF, 0xFFFFFFFF)
def magicSendBackConv : Int32 × Int32 := (0x145, 0x14514545)

/-- The default constructor. -/
def new : Handshake :=
  { magic1 := 0, conv := 1, token := 1, data := 1234567890, magic2 := 0, buffer := .new 0 }

/-- `Decode(buffer, true)`. (Without `verifyMagic` the function ends with no
return value; nothing calls it so.) -/
def decode (P : Platform) (h : Handshake) (buffer : BufferView) : Except Err (Bool × Handshake) :=
  if buffer.dataView.length < len then .ok (false, h)
  else do
    let (magic1, buffer) ← buffer.read P 4 true
    let (conv, buffer) ← buffer.read P 4 true
    let (token, buffer) ← buffer.read P 4 true
    let (data, buffer) ← buffer.read P 4 true
    let (magic2, _) ← buffer.read P 4 true
    let h := { h with
      magic1 := (UInt32.ofNat magic1).toInt32
      conv := UInt32.ofNat conv
      token := UInt32.ofNat token
      data := (UInt32.ofNat data).toInt32
      magic2 := (UInt32.ofNat magic2).toInt32 }
    -- an `int` compared with an `unsigned int`
    return (h.magic1.toUInt32 = magicConnect.1 ∧ h.magic2.toUInt32 = magicConnect.2, h)

/-- `Encode`: five big-endian writes, and the first 20 bytes of the buffer. -/
def encode (h : Handshake) : Bytes × Handshake :=
  let buffer := ((((h.buffer.write 4 h.magic1.toUInt32.toNat true).write 4 h.conv.toNat true).write 4
    h.token.toNat true).write 4 h.data.toUInt32.toNat true).write 4 h.magic2.toUInt32.toNat true
  (buffer.buffer.take 20, { h with buffer })

end Handshake

/-! ## The connection object -/

structure Kcp where
  endpoint : Endpoint
  ipPortNum : UInt32
  mtKey : Bytes
  packetQueue : List BasePacket
  sessionState : SessionState
  conv : UInt32
  token : UInt32
  lastPacketTime : Int
  state : ConnectionState
  kcp : Option Ikcpcb
  shouldUseMt : Bool
  deriving DecidableEq

namespace Kcp

/-- What `_recvBuf` is allocated with. -/
def recvBufSize : Nat := 65534

/-- The constructor. It leaves `_State` unset; `AcceptNonblock` sets it before
anything reads it. -/
def new (ep : Endpoint) : Kcp where
  endpoint := ep
  ipPortNum := 0
  mtKey := []
  packetQueue := []
  sessionState := .waitingForToken
  conv := 0
  token := 0
  lastPacketTime := 0
  state := .closed
  kcp := none
  shouldUseMt := false

def acceptNonblock (k : Kcp) : Kcp := { k with state := .handshakeWait, sessionState := .waitingForToken }

/-- `Initialize`: the control block, and the two threads start. -/
def initializeCb (k : Kcp) : Kcp :=
  { k with kcp := some (ikcpWndsize (ikcpCreate k.conv k.token) 4096), state := .connected }

/-- The conversation id a handshake at time `now` gives: `time(0) & 0xFFFFFFFF`. -/
def newConv (now : Int) : UInt32 := UInt32.ofInt now

/-- The token: `0xFFCCEEBB ^ ((time(0) >> 32) & 0xFFFFFFFF)`. -/
def newToken (now : Int) : UInt32 := 0xFFCCEEBB ^^^ UInt32.ofInt (now / 2 ^ 32)

/-- The reply to a handshake. -/
def handshakeReply (now : Int) : Bytes :=
  let handshake := { Handshake.new with
    magic1 := Handshake.magicSendBackConv.1
    magic2 := Handshake.magicSendBackConv.2
    conv := newConv now
    token := newToken now }
  handshake.encode.1

/-- What `Input` calls besides itself. -/
inductive InputCall
  /-- `_ctx->socket->send_to` -/
  | sendTo (bytes : Bytes)
  /-- `Initialize` -/
  | initializeCb
  | ikcpInput
  deriving DecidableEq

/-- The datagram a call sends. -/
def InputCall.sent : InputCall → Option Bytes
  | .sendTo bytes => some bytes
  | .initializeCb | .ikcpInput => none

/-- `Input`, call by call: the calls it makes in order, the last one being the
one that threw if it throws, its status and the object. `sendOk` is whether the
socket's `send_to` returns. -/
def inputCalls (P : Platform) (now : Int) (sendOk : Bool) (k : Kcp) (buffer : Bytes) :
    List InputCall × Except Err (Int × Kcp) :=
  let k := { k with lastPacketTime := toLong P now }
  match k.state with
  | .disconnected | .closed | .handshakeConnect => ([], .ok (0, k))
  | .connected =>
    match k.kcp with
    | none => ([.ikcpInput], .error .nullPointer)
    | some cb => ([.ikcpInput], .ok ((ikcpInput cb buffer).1, { k with kcp := some (ikcpInput cb buffer).2 }))
  | .handshakeWait =>
    let k := { k with conv := newConv now, token := newToken now }
    let send := InputCall.sendTo (handshakeReply now)
    if !sendOk then ([send], .error .systemError)
    else ([send, .initializeCb], .ok (0, k.initializeCb))

/-- `Input`: its status, the object, and the handshake reply if it sent one. -/
def input (P : Platform) (now : Int) (sendOk : Bool) (k : Kcp) (buffer : Bytes) :
    Except Err (Int × Kcp × Option Bytes) :=
  let (calls, result) := k.inputCalls P now sendOk buffer
  result.map fun (status, k) => (status, k, calls.findSome? InputCall.sent)

/-- A connected session hands the datagram to its control block. -/
theorem input_connected {P : Platform} {now sendOk} {k : Kcp} {cb} (hs : k.state = .connected)
    (hk : k.kcp = some cb) (buffer : Bytes) :
    k.input P now sendOk buffer = .ok ((ikcpInput cb buffer).1,
      { k with lastPacketTime := toLong P now, kcp := some (ikcpInput cb buffer).2 }, none) := by
  simp [input, inputCalls, hs, hk, Except.map, InputCall.sent]

/-- What `Recv` asks `ikcp_recv` to copy into `_recvBuf`, when it calls it. -/
def recvSize (cb : Ikcpcb) : Option Int :=
  if ikcpPeeksize cb ≠ 0 ∧ ikcpPeeksize cb ≠ -1 then some (ikcpPeeksize cb) else none

/-- `Recv`: the bytes of the span it returns, and the object. -/
def recv (k : Kcp) : Except Err (Bytes × Kcp) :=
  match k.kcp with
  | none => .error .nullPointer
  | some cb =>
    match recvSize cb with
    | none => .ok ([], k)
    | some sz =>
      let (result, data, cb) := ikcpRecv cb sz
      if recvBufSize < data.length then .error .outOfBounds
      else if 0 < result then .ok (data, { k with kcp := some cb })
      else .ok ([], { k with kcp := some cb })

/-- The key `ParsePacket` decrypts with. -/
def inboundKey (env : Env) (k : Kcp) : Bytes := if k.shouldUseMt then k.mtKey else env.dispatchKey

/-- What `ParsePacket` does with a message: decrypt, decode, `push_front`. -/
def queueMessage (env : Env) (k : Kcp) (data : Bytes) : Except Err Kcp :=
  if data = [] then .ok k
  else do
    let decData ← xor data (k.inboundKey env)
    let decPacket ← BasePacket.decode env decData
    return { k with packetQueue := decPacket :: k.packetQueue }

/-- `packet_queue.back()` and `pop_back()`. -/
def popBack (k : Kcp) : Option (BasePacket × Kcp) :=
  k.packetQueue.getLast?.map fun packet => (packet, { k with packetQueue := k.packetQueue.dropLast })

/-- The exit test of `Background`. -/
def idle (now : Int) (k : Kcp) : Bool := k.state ≠ .connected || 20 < now - k.lastPacketTime

/-- The object a handshake at `now` leaves. -/
def accepted (P : Platform) (ep : Endpoint) (now : Int) : Kcp :=
  { ({ (new ep).acceptNonblock with
      lastPacketTime := toLong P now, conv := newConv now, token := newToken now }).initializeCb with
    ipPortNum := ep.address + ep.port.toUInt32 }

end Kcp

end EyPS
