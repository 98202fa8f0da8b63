/-
The packet handler thread of a connection: `Kcp::PacketQueueHandler`, its
admission test, the handler table of `packetManager::init`, and the three
handlers.

A handler is straight-line code around its effects on the client, so it is
given as the list of those effects in order (`Act`): what the source computes
between two of them is in their arguments. The thread either goes on, has
returned from the loop, or has faulted (a signal: the process is gone).
-/
import EyPS.Runs
import EyPS.Kcp

namespace EyPS

/-- The classes derived from `PacketHandler`. -/
inductive PacketHandler
  | handlePingReq
  | handlePlayerTokenReq
  | handlePlayLoginReq
  deriving DecidableEq

/-- A packet's turn: the packet taken off the queue, and what `time(0)`
answers, call by call, while it is handled. -/
structure Turn where
  packet : BasePacket
  time : Nat → UInt64

inductive ThreadState
  | running
  | returned
  | faulted (e : Err)
  deriving DecidableEq

/-- A connection and the state of its packet handler thread. -/
structure Worker where
  kcp : Kcp
  thread : ThreadState
  deriving DecidableEq

/-- A call of `Kcp::Send(BasePacket, bool)`: by whom, with what, and the key
it hands to `Xor`. -/
structure SendCall where
  handler : PacketHandler
  packetId : UInt16
  packet : Bytes
  useDispatchKey : Bool
  key : Bytes
  deriving DecidableEq

inductive Event
  /-- the loop reached `m_Packets[packet.m_PacketId]->handler(this, packet)`;
  the pointer it found there -/
  | dispatch (packet : BasePacket) (handler : Option PacketHandler)
  | send (call : SendCall)
  deriving DecidableEq

/-! ## The handlers -/

/-- An effect of a handler on its client. -/
inductive Act
  | setUseMT (state : Bool)
  | generateMTKey (seed : UInt64)
  | setSessionState (state : SessionState)
  | send (packet : Bytes) (packetId : UInt16) (useDispatchKey : Bool)

/-- A packet a handler builds and sends. -/
def sendPacket (env : Env) (time : UInt64) (data : Bytes) (packetId : UInt16) (clientSequence : UInt32)
    (useDispatchKey : Bool) : Act :=
  .send (BasePacket.encode env time data packetId clientSequence) packetId useDispatchKey

def secretKeySeed : UInt64 := 0x123456789ABCDEF0

/-- `HandlePingReq::handler`. -/
def handlePingReq (env : Env) (turn : Turn) : List Act :=
  [sendPacket env (turn.time 0) (env.proto.pingRsp (env.proto.parsePingReq turn.packet.data))
    env.ids.pingRsp turn.packet.metadata.clientSequenceId false]

/-- The body of the response to a token request. -/
def tokenRsp (env : Env) (client : Kcp) (tokenReq : GetPlayerTokenReq) : GetPlayerTokenRsp where
  uid := tokenReq.uid
  accountUid := tokenReq.accountUid
  token := tokenReq.accountToken
  accountType := tokenReq.accountType
  secretKeySeed := secretKeySeed
  isProficientPlayer := true
  -- set from a `char *`: up to the first NUL
  securityCmdBuffer := env.secretKeyBuffer.takeWhile (· ≠ 0)
  platformType := 3
  channelId := 1
  countryCode := [42, 42, 42]
  regPlatform := 3
  clientIpStr := env.addressString client.endpoint.address

/-- `HandlePlayerTokenReq::handler`. -/
def handlePlayerTokenReq (env : Env) (client : Kcp) (turn : Turn) : List Act :=
  let rsp := tokenRsp env client (env.proto.parseGetPlayerTokenReq turn.packet.data)
  [.setUseMT true, .generateMTKey secretKeySeed, .setSessionState .waitingForLogin,
    sendPacket env (turn.time 0) (env.proto.getPlayerTokenRsp rsp) env.ids.getPlayerTokenRsp 0 true]

/-- `HandlePlayLoginReq::handler`. The base64 text it decodes is empty, so
`AvatarDataNotify` is parsed from no bytes; the login response goes out under
the id of the token response. -/
def handlePlayLoginReq (env : Env) (turn : Turn) : List Act :=
  let states := (List.range' 1 2601).map fun i => (UInt32.ofNat i, 1)
  let storage : StoreWeightLimitNotify :=
    { storeType := .pack, materialCountLimit := 2000, weightLimit := 30000, weaponCountLimit := 2000,
      reliquaryCountLimit := 2000, furnitureCountLimit := 2000 }
  let playerStore : PlayerStoreNotify :=
    { storeType := .pack, itemId := 11101, guid := 42992622632962, weaponLevel := 1, weightLimit := 30000 }
  let playerScene : PlayerEnterSceneNotify :=
    { type := .self, targetUid := 10001, enterSceneToken := 123, isFirstLoginEnterScene := true,
      sceneBeginTime := turn.time 4, sceneId := 3, pos := (2747, 194, -1719), worldType := 1,
      enterReason := 1 }
  let loginRsp : PlayerLoginRsp :=
    { isUseAbilityHash := true, abilityHashCode := 123456, gameBiz := [], isScOpen := false,
      countryCode := [42, 42, 42, 42] }
  [sendPacket env (turn.time 0) (env.proto.openStateUpdateNotify states) env.ids.openStateUpdateNotify 0 false,
    sendPacket env (turn.time 1) (env.proto.storeWeightLimitNotify storage) env.ids.storeWeightLimitNotify
      0 false,
    sendPacket env (turn.time 2) (env.proto.playerStoreNotify playerStore) env.ids.playerStoreNotify 0 false,
    sendPacket env (turn.time 3) (env.proto.avatarDataNotify []) env.ids.avatarDataNotify 0 false,
    sendPacket env (turn.time 5) (env.proto.playerEnterSceneNotify playerScene)
      env.ids.playerEnterSceneNotify 0 false,
    .setSessionState .pickingCharacter,
    sendPacket env (turn.time 6) (env.proto.playerLoginRsp loginRsp) env.ids.getPlayerTokenRsp 0 true]

/-- The virtual `handler` of each class. -/
def PacketHandler.handler (env : Env) (client : Kcp) (turn : Turn) : PacketHandler → List Act
  | .handlePingReq => EyPS.handlePingReq env turn
  | .handlePlayerTokenReq => EyPS.handlePlayerTokenReq env client turn
  | .handlePlayLoginReq => EyPS.handlePlayLoginReq env turn

/-- One effect. `Kcp::Send` picks the key and encrypts the packet's buffer. -/
def Act.exec (env : Env) (handler : PacketHandler) (w : Worker) (a : Act) : Worker × List Event :=
  if w.thread ≠ .running then (w, [])
  else match a with
  | .setUseMT state => ({ w with kcp := { w.kcp with shouldUseMt := state } }, [])
  | .generateMTKey seed => ({ w with kcp := { w.kcp with mtKey := generateKey env.mt19937_64 seed } }, [])
  | .setSessionState state => ({ w with kcp := { w.kcp with sessionState := state } }, [])
  | .send packet packetId useDispatchKey =>
    let key := if useDispatchKey then env.dispatchKey else w.kcp.mtKey
    let call := Event.send ⟨handler, packetId, packet, useDispatchKey, key⟩
    match xor packet key with
    | .ok _ => (w, [call])
    | .error e => ({ w with thread := .faulted e }, [call])

/-! ## The loop -/

/-- `m_Packets` as `packetManager::init` fills it. -/
def packets (ids : PacketIds) (id : UInt16) : Option PacketHandler :=
  if id = ids.pingReq then some .handlePingReq
  else if id = ids.getPlayerTokenReq then some .handlePlayerTokenReq
  else if id = ids.playerLoginReq then some .handlePlayLoginReq
  else none

/-- The admission chain of `PacketQueueHandler`: whether a packet of this id
gets past it in this session state. -/
def admitted (ids : PacketIds) (sessionState : SessionState) (id : UInt16) : Bool :=
  if id = ids.pingReq then true
  else if id = ids.getPlayerTokenReq then sessionState = .waitingForToken
  else if id = ids.playerLoginReq then sessionState = .waitingForLogin
  else if id = ids.setPlayerBornDataReq then sessionState = .pickingCharacter
  else sessionState = .active

/-- The body of the inner loop once a packet is admitted. -/
def runHandler (env : Env) (w : Worker) (turn : Turn) : Worker × List Event :=
  match packets env.ids turn.packet.packetId with
  | none => ({ w with thread := .faulted .nullPointer }, [.dispatch turn.packet none])
  | some h =>
    let acts := h.handler env w.kcp turn
    (Runs.final (Act.exec env h) w acts, .dispatch turn.packet (some h) :: Runs.log (Act.exec env h) w acts)

/-- The body of the inner loop, for the packet just taken: a packet that is
not admitted makes `PacketQueueHandler` return. -/
def handlePacket (env : Env) (w : Worker) (turn : Turn) : Worker × List Event :=
  if w.thread ≠ .running then (w, [])
  else if admitted env.ids w.kcp.sessionState turn.packet.packetId then runHandler env w turn
  else ({ w with thread := .returned }, [])

/-- One pass of `PacketQueueHandler`: the inner loop takes the next packet;
once the queue is empty the outer loop tests `_State`. -/
def packetQueueHandler (env : Env) (time : Nat → UInt64) (w : Worker) : Worker × List Event :=
  if w.thread ≠ .running then (w, [])
  else match w.kcp.popBack with
  | some (packet, kcp) => handlePacket env { w with kcp } ⟨packet, time⟩
  | none => if w.kcp.state ≠ .connected then ({ w with thread := .returned }, []) else (w, [])

/-- The worker of a session that `AcceptNonblock` and `Initialize` set up. -/
def Worker.start (P : Platform) (ep : Endpoint) (now : Int) : Worker :=
  { kcp := Kcp.accepted P ep now, thread := .running }

end EyPS
