/-
A frame through the whole pipeline: encoded, encrypted, decrypted, decoded.

The encoder writes the parts of `Layout` one after the other, and the decoder
takes them off the front of its view in the same order. Between the two the
cipher is its own inverse.
-/
import EyPS.Packet

namespace EyPS

/-- The parts of a frame, in their order on the wire. -/
structure Layout where
  magicStart : Nat
  packetId : Nat
  metadata : Bytes
  data : Bytes
  magicEnd : Nat

namespace Layout

/-- A big-endian field. -/
def field (size value : Nat) : Bytes := ordered true (toLE size value)

@[simp] theorem field_length (size value : Nat) : (field size value).length = size := by simp [field]

/-- The sizes of the two sections stand where the decoder needs them. -/
def bytes (l : Layout) : Bytes :=
  field 2 l.magicStart ++ (field 2 l.packetId ++ (field 2 l.metadata.length ++ (field 4 l.data.length ++
    (l.metadata ++ (l.data ++ field 2 l.magicEnd)))))

@[simp] theorem bytes_length (l : Layout) : l.bytes.length = 12 + l.metadata.length + l.data.length := by
  simp [bytes]
  omega

/-- Every number fits its field. -/
structure Fits (l : Layout) : Prop where
  magicStart : l.magicStart < 256 ^ 2
  packetId : l.packetId < 256 ^ 2
  metadata : l.metadata.length < 256 ^ 2
  data : l.data.length < 256 ^ 4
  magicEnd : l.magicEnd < 256 ^ 2

/-- What the decoder makes of it, everything read. -/
def packet (env : Env) (l : Layout) : BasePacket where
  view := .split l.bytes []
  magicStart := UInt16.ofNat l.magicStart
  packetId := UInt16.ofNat l.packetId
  metadataSize := UInt16.ofNat l.metadata.length
  dataSize := UInt32.ofNat l.data.length
  metadata := env.proto.parsePacketHead l.metadata
  data := l.data
  magicEnd := UInt16.ofNat l.magicEnd

end Layout

/-- The next field of a view. -/
theorem read_field {P : Platform} {done rest : Bytes} {size value : Nat} (hv : value < 256 ^ size)
    (h : (done ++ (Layout.field size value ++ rest)).length < 2 ^ P.sizeT) :
    (BufferView.split done (Layout.field size value ++ rest)).read P size true =
      .ok (value, .split (done ++ Layout.field size value) rest) := by
  rw [BufferView.read_split h rfl, Nat.mod_eq_of_lt hv]

/-- **Decoding** reads every part of a layout, and all of its bytes. -/
theorem decode_layout {env : Env} {l : Layout} (hfits : l.Fits) (hsize : l.bytes.length < 2 ^ env.platform.sizeT) :
    BasePacket.decode env l.bytes = .ok (l.packet env) := by
  have hlength := l.bytes_length
  -- every cut of the frame is as long as the frame
  have hcut : ∀ {done rest : Bytes}, done.length + rest.length = 12 + l.metadata.length + l.data.length →
      (done ++ rest).length < 2 ^ env.platform.sizeT := by
    intro done rest h
    rwa [List.length_append, h, ← hlength]
  have hlast : ∀ {done : Bytes}, done.length = 10 + l.metadata.length + l.data.length →
      (BufferView.split done (Layout.field 2 l.magicEnd)).read env.platform 2 true =
        .ok (l.magicEnd, .split (done ++ Layout.field 2 l.magicEnd) []) := by
    intro done h
    have hread := @read_field env.platform done [] 2 _ hfits.magicEnd (hcut (by simp [h]; omega))
    rwa [List.append_nil] at hread
  rw [BasePacket.decode, BufferView.new_eq_split]
  simp only [Layout.bytes, bind, Except.bind]
  rw [read_field hfits.magicStart (hcut (by simp; omega))]
  dsimp only
  rw [read_field hfits.packetId (hcut (by simp; omega))]
  dsimp only
  rw [read_field hfits.metadata (hcut (by simp; omega))]
  dsimp only
  rw [read_field hfits.data (hcut (by simp; omega))]
  dsimp only
  rw [BufferView.readView_split (hcut (by simp; omega))]
  dsimp only
  rw [BufferView.readView_split (hcut (by simp; omega))]
  dsimp only
  rw [hlast (by simp; omega)]
  simp [Layout.packet, Layout.bytes, pure, Except.pure]

/-! ## The pipeline -/

section Pipeline

variable (env : Env) (time : UInt64) (data : Bytes) (id : UInt16) (seq : UInt32)

/-- The parts the encoding constructors write. -/
def BasePacket.layout : Layout where
  magicStart := 0x4567
  packetId := id.toNat
  metadata := BasePacket.head env time seq
  data := data
  magicEnd := 0x89ab

theorem encode_eq_layout :
    BasePacket.encode env time data id seq = (BasePacket.layout env time data id seq).bytes := by
  simp [BasePacket.encode, BasePacket.layout, Layout.bytes, Layout.field]

variable {env time data id seq}

/-- What the encoder narrows loses nothing within these sizes. -/
theorem layout_fits (hhead : (BasePacket.head env time seq).length < 65536)
    (hlen : (BasePacket.encode env time data id seq).length < 2 ^ 31) :
    (BasePacket.layout env time data id seq).Fits where
  magicStart := show 0x4567 < 256 ^ 2 by decide
  packetId := id.toNat_lt
  metadata := hhead
  data := by
    rw [BasePacket.encode_length] at hlen
    show data.length < 256 ^ 4
    omega
  magicEnd := show 0x89ab < 256 ^ 2 by decide

/-- **A packet survives the pipeline**: encoded by either constructor, encrypted and
decrypted under one key and decoded, it has its fields back, and every byte is read. -/
theorem frame_round_trip {key : Bytes} (hhead : (BasePacket.head env time seq).length < 65536)
    (hparse : env.proto.parsePacketHead (BasePacket.head env time seq) = ⟨seq, time⟩)
    (hlen : (BasePacket.encode env time data id seq).length < 2 ^ 31) (hkey : key ≠ []) :
    BasePacket.encodeString env time data id seq = BasePacket.encode env time data id seq ∧
    ∃ encrypted decrypted packet, xor (BasePacket.encode env time data id seq) key = .ok encrypted ∧
      xor encrypted key = .ok decrypted ∧ BasePacket.decode env decrypted = .ok packet ∧
      packet.magicStart = 0x4567 ∧ packet.magicEnd = 0x89ab ∧ packet.packetId = id ∧
      packet.metadataSize.toNat = (BasePacket.head env time seq).length ∧
      packet.dataSize.toNat = data.length ∧ packet.metadata = ⟨seq, time⟩ ∧ packet.data = data ∧
      packet.view.curDataOffset = (BasePacket.encode env time data id seq).length ∧
      packet.view.getRemainingBytes env.platform = 0 := by
  have hencrypt := xor_of_ne (p := BasePacket.encode env time data id seq) hkey
  have hfits := layout_fits hhead hlen
  have hsize : (BasePacket.layout env time data id seq).bytes.length < 2 ^ env.platform.sizeT := by
    rw [← encode_eq_layout]
    exact Nat.lt_of_lt_of_le hlen (Nat.le_trans (by decide) env.platform.two_pow_32_le)
  have hdecode := decode_layout hfits hsize
  rw [← encode_eq_layout] at hdecode
  refine ⟨rfl, _, _, _, hencrypt, xor_xor hencrypt, hdecode, rfl, rfl, ?_, ?_, ?_, hparse, rfl, ?_, ?_⟩
  · exact UInt16.ofNat_toNat
  · exact UInt16.toNat_ofNat_of_lt hhead
  · exact UInt32.toNat_ofNat_of_lt hfits.data
  · rw [encode_eq_layout]
    rfl
  · exact BufferView.getRemainingBytes_split _ (Nat.two_pow_pos _)

/-- Three bytes, in a frame whose metadata, with every field at its default, is empty. -/
theorem frame_round_trip_sample :
    let frame := BasePacket.encode Env.sample 0 [1, 2, 3] 5 0
    BasePacket.encodeString Env.sample 0 [1, 2, 3] 5 0 = frame ∧
    ∃ encrypted decrypted packet, xor frame [7, 9] = .ok encrypted ∧ xor encrypted [7, 9] = .ok decrypted ∧
      BasePacket.decode Env.sample decrypted = .ok packet ∧
      packet.magicStart = 0x4567 ∧ packet.magicEnd = 0x89ab ∧ packet.packetId = 5 ∧
      packet.metadataSize.toNat = (BasePacket.head Env.sample 0 0).length ∧ packet.dataSize.toNat = 3 ∧
      packet.metadata = ⟨0, 0⟩ ∧ packet.data = [1, 2, 3] ∧ packet.view.curDataOffset = frame.length ∧
      packet.view.getRemainingBytes Env.sample.platform = 0 :=
  frame_round_trip (by decide) (by decide) (by decide) (by decide)

end Pipeline

end EyPS
