/-
What the model takes from outside the repository: the protobuf messages'
generated code, `PacketIds.h`, `std::mt19937_64`, the key files and the
address printer. Each message is the record of the fields the handlers set
or read; its wire form is a parameter.
-/
import EyPS.Buffer

namespace EyPS

/-- `PacketIds`: the constants the packet code names, pairwise distinct. -/
structure PacketIds where
  pingReq : UInt16
  pingRsp : UInt16
  getPlayerTokenReq : UInt16
  getPlayerTokenRsp : UInt16
  playerLoginReq : UInt16
  setPlayerBornDataReq : UInt16
  openStateUpdateNotify : UInt16
  storeWeightLimitNotify : UInt16
  playerStoreNotify : UInt16
  avatarDataNotify : UInt16
  playerEnterSceneNotify : UInt16
  distinct : [pingReq, pingRsp, getPlayerTokenReq, getPlayerTokenRsp, playerLoginReq,
    setPlayerBornDataReq, openStateUpdateNotify, storeWeightLimitNotify, playerStoreNotify,
    avatarDataNotify, playerEnterSceneNotify].Nodup

/-- `PacketHead`, the metadata of every packet. -/
structure PacketHead where
  clientSequenceId : UInt32
  timestamp : UInt64
  deriving DecidableEq

structure GetPlayerTokenReq where
  uid : UInt32
  accountUid : Bytes
  accountToken : Bytes
  accountType : UInt32

structure GetPlayerTokenRsp where
  uid : UInt32
  accountUid : Bytes
  token : Bytes
  accountType : UInt32
  secretKeySeed : UInt64
  isProficientPlayer : Bool
  securityCmdBuffer : Bytes
  platformType : UInt32
  channelId : UInt32
  countryCode : Bytes
  regPlatform : UInt32
  clientIpStr : Bytes

inductive StoreType
  | pack

inductive EnterType
  | self

structure StoreWeightLimitNotify where
  storeType : StoreType
  materialCountLimit : UInt32
  weightLimit : UInt32
  weaponCountLimit : UInt32
  reliquaryCountLimit : UInt32
  furnitureCountLimit : UInt32

/-- `PlayerStoreNotify` with its one item, a weapon. -/
structure PlayerStoreNotify where
  storeType : StoreType
  itemId : UInt32
  guid : UInt64
  weaponLevel : UInt32
  weightLimit : UInt32

structure PlayerEnterSceneNotify where
  type : EnterType
  targetUid : UInt32
  enterSceneToken : UInt32
  isFirstLoginEnterScene : Bool
  sceneBeginTime : UInt64
  sceneId : UInt32
  pos : Int × Int × Int
  worldType : UInt32
  enterReason : UInt32

structure PlayerLoginRsp where
  isUseAbilityHash : Bool
  abilityHashCode : Int
  gameBiz : Bytes
  isScOpen : Bool
  countryCode : Bytes

/-- The generated code: `ParseFromArray` and `SerializeAsString`. -/
structure Proto where
  parsePacketHead : Bytes → PacketHead
  packetHead : PacketHead → Bytes
  /-- `PingReq`, of which only `client_time` is read -/
  parsePingReq : Bytes → UInt32
  /-- `PingRsp` with this `client_time` -/
  pingRsp : UInt32 → Bytes
  parseGetPlayerTokenReq : Bytes → GetPlayerTokenReq
  getPlayerTokenRsp : GetPlayerTokenRsp → Bytes
  /-- `OpenStateUpdateNotify` with this `open_state_map` -/
  openStateUpdateNotify : List (UInt32 × UInt32) → Bytes
  storeWeightLimitNotify : StoreWeightLimitNotify → Bytes
  playerStoreNotify : PlayerStoreNotify → Bytes
  /-- `AvatarDataNotify` parsed from these bytes and serialised again -/
  avatarDataNotify : Bytes → Bytes
  playerEnterSceneNotify : PlayerEnterSceneNotify → Bytes
  playerLoginRsp : PlayerLoginRsp → Bytes

/-- The build, the generated code and the configuration a server runs with. -/
structure Env where
  platform : Platform
  ids : PacketIds
  proto : Proto
  /-- `std::mt19937_64`: the word a generator of this seed gives on call `n` -/
  mt19937_64 : UInt64 → Nat → UInt64
  /-- `Config::DispatchKey_` -/
  dispatchKey : Bytes
  /-- `Config::SecretKeyBuffer_` -/
  secretKeyBuffer : Bytes
  /-- `asio::ip::address_v4::to_string` -/
  addressString : UInt32 → Bytes

/-- An environment to evaluate the model in: ids 1 to 11, messages that carry
nothing, a generator that counts from its seed, a one-byte dispatch key. -/
def Env.sample : Env where
  platform := { sizeT := 64, long := 64 }
  ids := {
    pingReq := 1, pingRsp := 2, getPlayerTokenReq := 3, getPlayerTokenRsp := 4, playerLoginReq := 5,
    setPlayerBornDataReq := 6, openStateUpdateNotify := 7, storeWeightLimitNotify := 8,
    playerStoreNotify := 9, avatarDataNotify := 10, playerEnterSceneNotify := 11, distinct := by decide }
  proto := {
    parsePacketHead := fun _ => ⟨0, 0⟩
    packetHead := fun _ => []
    parsePingReq := fun _ => 0
    pingRsp := fun _ => []
    parseGetPlayerTokenReq := fun _ => ⟨0, [], [], 0⟩
    getPlayerTokenRsp := fun _ => []
    openStateUpdateNotify := fun _ => []
    storeWeightLimitNotify := fun _ => []
    playerStoreNotify := fun _ => []
    avatarDataNotify := fun _ => []
    playerEnterSceneNotify := fun _ => []
    playerLoginRsp := fun _ => [] }
  mt19937_64 := fun seed n => seed + UInt64.ofNat n
  dispatchKey := [1]
  secretKeyBuffer := []
  addressString := fun _ => []

end EyPS
