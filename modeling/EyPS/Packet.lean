/-
`util/BasePacket`: the frame around every game packet.

    0x4567 | packet id | metadata size | data size | metadata | data | 0x89ab

every number big-endian. The decoding constructor reads the frame off a
`bufferView`; the encoding one writes it to the view's output buffer.
-/
import EyPS.Crypto

namespace EyPS

/-- A decoded `BasePacket`. -/
structure BasePacket where
  view : BufferView
  magicStart : UInt16
  packetId : UInt16
  metadataSize : UInt16
  dataSize : UInt32
  metadata : PacketHead
  data : Bytes
  magicEnd : UInt16
  deriving DecidableEq

namespace BasePacket

/-- `BasePacket(span)`, the decoding constructor. A `size_t` of 32 bits lets a
declared size wrap `ReadView`'s offset: that is `.outOfBounds` here, where the
constructor itself goes on (see `BufferView.readView`). -/
def decode (env : Env) (data : Bytes) : Except Err BasePacket := do
  let P := env.platform
  let v := BufferView.new data
  let (magicStart, v) ← v.read P 2 true
  let (packetId, v) ← v.read P 2 true
  let (metadataSize, v) ← v.read P 2 true
  let (dataSize, v) ← v.read P 4 true
  let (metaData, v) ← v.readView P metadataSize
  let (body, v) ← v.readView P dataSize
  let (magicEnd, v) ← v.read P 2 true
  return {
    view := v
    magicStart := UInt16.ofNat magicStart
    packetId := UInt16.ofNat packetId
    metadataSize := UInt16.ofNat metadataSize
    dataSize := UInt32.ofNat dataSize
    metadata := env.proto.parsePacketHead metaData
    data := body
    magicEnd := UInt16.ofNat magicEnd }

/-- The metadata the encoding constructors write. -/
def head (env : Env) (time : UInt64) (clientSequence : UInt32) : Bytes :=
  env.proto.packetHead { clientSequenceId := clientSequence, timestamp := time }

/-- The bytes that `BasePacket(data, packet_id, client_sequence)` leaves in its
buffer, `time` being what its `time(0)` answers. The narrowing of the two
sizes is `toLE`'s. -/
def encode (env : Env) (time : UInt64) (data : Bytes) (packetId : UInt16) (clientSequence : UInt32) : Bytes :=
  let metaData := head env time clientSequence
  (((((((BufferView.new data).write 2 0x4567 true).write 2 packetId.toNat true).write 2
    metaData.length true).write 4 data.length true).writeArray metaData).writeArray data).write 2
    0x89ab true |>.buffer

/-- The overload for a `std::string`, which writes the same. -/
def encodeString (env : Env) (time : UInt64) (data : Bytes) (packetId : UInt16) (clientSequence : UInt32) :
    Bytes :=
  let metaData := head env time clientSequence
  (((((((BufferView.new data).write 2 0x4567 true).write 2 packetId.toNat true).write 2
    metaData.length true).write 4 data.length true).writeArray metaData).writeArray data).write 2
    0x89ab true |>.buffer

@[simp] theorem encode_length (env time data id seq) :
    (encode env time data id seq).length = 12 + (head env time seq).length + data.length := by
  simp [encode]
  omega

/-- A frame is never empty, so `Xor` on it needs a key. -/
theorem encode_ne_nil (env time data id seq) : encode env time data id seq ≠ [] := by
  intro h
  have := encode_length env time data id seq
  rw [h] at this
  simp at this
  omega

end BasePacket

end EyPS
