/-
The frames that the decoding constructor of `BasePacket` accepts, and what it
reads from each. Every bound is a sum with the cursor that the reads before it
left, so the decoder is followed read by read at a cursor (`readAt`); the outcome is one
comparison of the length with the two lengths in the header (`FitsFrame`).

Nothing is compared with the magic numbers, and nothing asks for the end of
the view: an accepted packet is the encoder's layout with any two magic
numbers, followed by any bytes.
-/
import EyPS.Frame

namespace EyPS

/-- The `n` bytes from this place on. -/
def slice (b : Bytes) (offset n : Nat) : Bytes := (b.drop offset).take n

/-- The big-endian number in them. -/
def beNat (size : Nat) (b : Bytes) (offset : Nat) : Nat := fromLE (ordered true (slice b offset size))

/-- The two lengths in the header of a frame. -/
def metadataLength (b : Bytes) : Nat := beNat 2 b 4

def dataLength (b : Bytes) : Nat := beNat 4 b 6

/-- The frame is as long as its header says, at least. -/
def FitsFrame (b : Bytes) : Prop := 10 ≤ b.length ∧ 12 + metadataLength b + dataLength b ≤ b.length

instance (b : Bytes) : Decidable (FitsFrame b) := inferInstanceAs (Decidable (_ ∧ _))

/-! ## Slices -/

section Slice

variable (b : Bytes) (offset n : Nat)

theorem slice_length (h : offset + n ≤ b.length) : (slice b offset n).length = n := by
  rw [slice, List.length_take, List.length_drop]
  omega

/-- A slice and what follows it. -/
theorem slice_append : slice b offset n ++ b.drop (offset + n) = b.drop offset := by
  rw [slice, ← List.drop_drop, List.take_append_drop]

theorem beNat_lt : beNat n b offset < 256 ^ n := by
  have hlt := fromLE_lt (ordered true (slice b offset n))
  have hlen : (ordered true (slice b offset n)).length ≤ n := by
    rw [ordered_length, slice, List.length_take]
    omega
  exact Nat.lt_of_lt_of_le hlt (Nat.pow_le_pow_right (by omega) hlen)

theorem metadataLength_lt : metadataLength b < 65536 := beNat_lt b 4 2

theorem dataLength_lt : dataLength b < 4294967296 := beNat_lt b 6 4

/-- Writing the number back gives the bytes. -/
theorem field_beNat (h : offset + n ≤ b.length) : Layout.field n (beNat n b offset) = slice b offset n := by
  have hlen : (ordered true (slice b offset n)).length = n := by rw [ordered_length, slice_length b offset n h]
  have hback : toLE n (beNat n b offset) = ordered true (slice b offset n) := by
    refine fromLE_inj (by rw [toLE_length, hlen]) ?_
    rw [fromLE_toLE, Nat.mod_eq_of_lt (beNat_lt b offset n)]
    rfl
  rw [Layout.field, hback, ordered_ordered]

end Slice

/-! ## Reads at a cursor -/

section Reads

variable {P : Platform} {b : Bytes} {offset n : Nat}

/-- Where the sum does not wrap, a read is a comparison with the length. -/
theorem readView_at (h : offset + n < 2 ^ P.sizeT) : (⟨b, offset, []⟩ : BufferView).readView P n =
    if offset + n ≤ b.length then .ok (slice b offset n, ⟨b, offset + n, []⟩) else .error BufferView.tooShort :=
  BufferView.readView_eq h

theorem read_at (h : offset + n < 2 ^ P.sizeT) : (⟨b, offset, []⟩ : BufferView).read P n true =
    if offset + n ≤ b.length then .ok (beNat n b offset, ⟨b, offset + n, []⟩) else .error BufferView.tooShort := by
  rw [BufferView.read, readView_at h]
  split <;> rfl

/-- A read completes exactly inside the view: a sum that wraps is let through by the
guard, and nowhere else. -/
theorem readView_eq_ok {x : Bytes × BufferView} : (⟨b, offset, []⟩ : BufferView).readView P n = .ok x ↔
    offset + n ≤ b.length ∧ x = (slice b offset n, ⟨b, offset + n, []⟩) := by
  have hmod : offset + n ≤ b.length → (offset + n) % 2 ^ P.sizeT ≤ b.length :=
    fun h => Nat.le_trans (Nat.mod_le _ _) h
  simp only [BufferView.readView, BufferView.canReadBytes, slice]
  by_cases hlen : offset + n ≤ b.length
  · simp [hlen, hmod hlen, Nat.not_lt.mpr hlen, eq_comm]
  · simp only [hlen, false_and, iff_false]
    split
    · simp
    · rw [if_pos (by omega)]
      simp

theorem read_eq_ok {x : Nat × BufferView} : (⟨b, offset, []⟩ : BufferView).read P n true = .ok x ↔
    offset + n ≤ b.length ∧ x = (beNat n b offset, ⟨b, offset + n, []⟩) := by
  rw [BufferView.read, bind_eq_ok]
  constructor
  · intro h
    obtain ⟨y, hy, h⟩ := h
    obtain ⟨hlen, rfl⟩ := readView_eq_ok.mp hy
    cases h
    exact ⟨hlen, rfl⟩
  · intro h
    obtain ⟨hlen, rfl⟩ := h
    exact ⟨_, readView_eq_ok.mpr ⟨hlen, rfl⟩, rfl⟩

end Reads

/-! ## The decoder -/

/-- What the decoder makes of a frame. -/
def packetAt (env : Env) (b : Bytes) : BasePacket where
  view := ⟨b, 12 + metadataLength b + dataLength b, []⟩
  magicStart := UInt16.ofNat (beNat 2 b 0)
  packetId := UInt16.ofNat (beNat 2 b 2)
  metadataSize := UInt16.ofNat (metadataLength b)
  dataSize := UInt32.ofNat (dataLength b)
  metadata := env.proto.parsePacketHead (slice b 10 (metadataLength b))
  data := slice b (10 + metadataLength b) (dataLength b)
  magicEnd := UInt16.ofNat (beNat 2 b (10 + metadataLength b + dataLength b))

section Decode

variable {env : Env} {b : Bytes}

/-- A read and what comes after it. -/
theorem read_bind {P : Platform} {offset n : Nat} {α : Type} {f : Nat × BufferView → Except Err α}
    (h : offset + n < 2 ^ P.sizeT) : ((⟨b, offset, []⟩ : BufferView).read P n true >>= f) =
      if offset + n ≤ b.length then f (beNat n b offset, ⟨b, offset + n, []⟩)
      else .error BufferView.tooShort := by
  rw [read_at h]
  split <;> rfl

theorem readView_bind {P : Platform} {offset n : Nat} {α : Type} {f : Bytes × BufferView → Except Err α}
    (h : offset + n < 2 ^ P.sizeT) : ((⟨b, offset, []⟩ : BufferView).readView P n >>= f) =
      if offset + n ≤ b.length then f (slice b offset n, ⟨b, offset + n, []⟩)
      else .error BufferView.tooShort := by
  rw [readView_at h]
  split <;> rfl

/-- **The decoder** completes on the frames that fit, and else throws. -/
theorem decode_eq (h64 : env.platform.sizeT = 64) (b : Bytes) :
    BasePacket.decode env b =
      if FitsFrame b then .ok (packetAt env b) else .error BufferView.tooShort := by
  have hm := metadataLength_lt b
  have hd := dataLength_lt b
  have hsize : 2 ^ env.platform.sizeT = 18446744073709551616 := by
    rw [h64]
    rfl
  have hmetadata : beNat 2 b 4 = metadataLength b := rfl
  have hdata : beNat 4 b 6 = dataLength b := rfl
  rw [BasePacket.decode, BufferView.new]
  dsimp only
  rw [read_bind (by omega)]
  dsimp only
  rw [read_bind (by omega)]
  dsimp only
  rw [read_bind (by omega)]
  dsimp only
  rw [read_bind (by omega)]
  simp only [Nat.reduceAdd, hmetadata, hdata]
  rw [readView_bind (by omega)]
  dsimp only
  rw [readView_bind (by omega)]
  dsimp only
  rw [read_bind (by omega)]
  -- the seven comparisons, each with the cursor the reads before it left
  simp only [← ite_and]
  refine if_congr ?_ ?_ rfl
  · unfold FitsFrame
    omega
  · have hend : 10 + metadataLength b + dataLength b + 2 = 12 + metadataLength b + dataLength b := by omega
    simp only [hend, packetAt]
    rfl

theorem of_read_bind {P : Platform} {offset n : Nat} {α : Type} {f : Nat × BufferView → Except Err α} {a : α}
    (h : ((⟨b, offset, []⟩ : BufferView).read P n true >>= f) = .ok a) :
    offset + n ≤ b.length ∧ f (beNat n b offset, ⟨b, offset + n, []⟩) = .ok a := by
  obtain ⟨x, hread, h⟩ := bind_eq_ok.mp h
  obtain ⟨hlen, rfl⟩ := read_eq_ok.mp hread
  exact ⟨hlen, h⟩

theorem of_readView_bind {P : Platform} {offset n : Nat} {α : Type} {f : Bytes × BufferView → Except Err α}
    {a : α} (h : ((⟨b, offset, []⟩ : BufferView).readView P n >>= f) = .ok a) :
    offset + n ≤ b.length ∧ f (slice b offset n, ⟨b, offset + n, []⟩) = .ok a := by
  obtain ⟨x, hread, h⟩ := bind_eq_ok.mp h
  obtain ⟨hlen, rfl⟩ := readView_eq_ok.mp hread
  exact ⟨hlen, h⟩

/-- A packet that was decoded is that of a frame that fits, on any build. -/
theorem decode_eq_ok {packet : BasePacket} (h : BasePacket.decode env b = .ok packet) :
    FitsFrame b ∧ packet = packetAt env b := by
  rw [BasePacket.decode, BufferView.new] at h
  obtain ⟨-, h⟩ := of_read_bind h
  obtain ⟨-, h⟩ := of_read_bind h
  obtain ⟨-, h⟩ := of_read_bind h
  obtain ⟨hheader, h⟩ := of_read_bind h
  obtain ⟨-, h⟩ := of_readView_bind h
  obtain ⟨-, h⟩ := of_readView_bind h
  obtain ⟨hframe, h⟩ := of_read_bind h
  have hmetadata : beNat 2 b 4 = metadataLength b := rfl
  have hdata : beNat 4 b 6 = dataLength b := rfl
  have hend : 10 + metadataLength b + dataLength b + 2 = 12 + metadataLength b + dataLength b := by omega
  simp only [Nat.reduceAdd, hmetadata, hdata] at hheader hframe h
  refine ⟨⟨hheader, by omega⟩, ?_⟩
  cases h
  simp only [hend, packetAt]

end Decode

/-! ## What is accepted -/

/-- A frame that fits is its header, the two sections, the end magic, and bytes
that nobody reads. -/
theorem FitsFrame.split {b : Bytes} (h : FitsFrame b) :
    let m := metadataLength b
    let d := dataLength b
    (slice b 10 m).length = m ∧ (slice b (10 + m) d).length = d ∧ (slice b (10 + m + d) 2).length = 2 ∧
      b = b.take 10 ++ (slice b 10 m ++ (slice b (10 + m) d ++ (slice b (10 + m + d) 2 ++ b.drop (12 + m + d)))) := by
  intro m d
  obtain ⟨-, hframe⟩ := h
  have hframe : 12 + m + d ≤ b.length := hframe
  refine ⟨slice_length _ _ _ (by omega), slice_length _ _ _ (by omega), slice_length _ _ _ (by omega), ?_⟩
  have hend : 12 + m + d = 10 + m + d + 2 := by omega
  rw [hend, slice_append, slice_append, slice_append, List.take_append_drop]

/-- **The packet grammar**, where `size_t` has 64 bits: the decoder completes exactly
on the byte strings that their header fits, throws `std::length_error` on the
others, and reads each field from its place. -/
theorem packet_grammar (env : Env) (h64 : env.platform.sizeT = 64) (b : Bytes) :
    let m := metadataLength b
    let d := dataLength b
    ((∃ packet, BasePacket.decode env b = .ok packet) ↔ 10 ≤ b.length ∧ 12 + m + d ≤ b.length) ∧
    (¬ (10 ≤ b.length ∧ 12 + m + d ≤ b.length) → ∃ what, BasePacket.decode env b = .error (.lengthError what)) ∧
    ∀ packet, BasePacket.decode env b = .ok packet →
      packet.packetId.toNat = beNat 2 b 2 ∧ packet.metadata = env.proto.parsePacketHead (slice b 10 m) ∧
      packet.data = slice b (10 + m) d ∧ packet.magicEnd.toNat = beNat 2 b (10 + m + d) ∧
      (slice b 10 m).length = m ∧ packet.data.length = d ∧
      b = b.take 10 ++ (slice b 10 m ++ (packet.data ++ (slice b (10 + m + d) 2 ++ b.drop (12 + m + d)))) := by
  intro m d
  have hdecode := decode_eq h64 b
  refine ⟨⟨fun h => ?_, fun h => ?_⟩, fun h => ?_, fun packet h => ?_⟩
  · obtain ⟨packet, h⟩ := h
    exact (decode_eq_ok h).1
  · exact ⟨_, hdecode.trans (if_pos h)⟩
  · exact ⟨_, hdecode.trans (if_neg h)⟩
  · obtain ⟨hfits, rfl⟩ := decode_eq_ok h
    obtain ⟨hmetadata, hdata, -, hsplit⟩ := hfits.split
    exact ⟨UInt16.toNat_ofNat_of_lt (beNat_lt b 2 2), rfl, rfl,
      UInt16.toNat_ofNat_of_lt (beNat_lt b (10 + m + d) 2), hmetadata, hdata, hsplit⟩

/-- A frame with three bytes of data. -/
theorem packet_grammar_sample :
    ∃ packet, BasePacket.decode Env.sample (BasePacket.encode Env.sample 0 [1, 2, 3] 5 0) = .ok packet :=
  (packet_grammar Env.sample rfl _).1.mpr (by decide)

/-! ## Writing it again -/

/-- The encoder's layout of a decoded packet, `b` being what it was decoded from. -/
def relayout (b : Bytes) (packet : BasePacket) (magicStart magicEnd : UInt16) : Layout where
  magicStart := magicStart.toNat
  packetId := packet.packetId.toNat
  metadata := slice b 10 packet.metadataSize.toNat
  data := packet.data
  magicEnd := magicEnd.toNat

/-- With the magic numbers it has, the layout is what the decoder read. -/
theorem relayout_append {env : Env} {b : Bytes} {packet : BasePacket} (h : BasePacket.decode env b = .ok packet) :
    (relayout b packet packet.magicStart packet.magicEnd).bytes ++ b.drop packet.view.curDataOffset = b := by
  obtain ⟨hfits, rfl⟩ := decode_eq_ok h
  have hm := metadataLength_lt b
  have hd := dataLength_lt b
  obtain ⟨hmetadata, hdata, -, -⟩ := hfits.split
  obtain ⟨hheader, hframe⟩ := hfits
  have h16 : ∀ offset, (UInt16.ofNat (beNat 2 b offset)).toNat = beNat 2 b offset :=
    fun offset => UInt16.toNat_ofNat_of_lt (beNat_lt b offset 2)
  have hsize : (UInt16.ofNat (metadataLength b)).toNat = metadataLength b := h16 4
  have hfields : Layout.field 2 (metadataLength b) = slice b 4 2 ∧ Layout.field 4 (dataLength b) = slice b 6 4 :=
    ⟨field_beNat b 4 2 (by omega), field_beNat b 6 4 (by omega)⟩
  have hend : 12 + metadataLength b + dataLength b = 10 + metadataLength b + dataLength b + 2 := by omega
  simp only [relayout, Layout.bytes, packetAt, h16, hsize, hmetadata, hdata, hfields.1, hfields.2, List.append_assoc]
  rw [field_beNat b 0 2 (by omega), field_beNat b 2 2 (by omega), field_beNat b _ 2 (by omega), hend]
  -- each part takes its bytes off what is left
  calc slice b 0 2 ++ (slice b 2 2 ++ (slice b 4 2 ++ (slice b 6 4 ++ (slice b 10 (metadataLength b) ++
        (slice b (10 + metadataLength b) (dataLength b) ++ (slice b (10 + metadataLength b + dataLength b) 2 ++
          b.drop (10 + metadataLength b + dataLength b + 2)))))))
      = slice b 0 2 ++ (slice b 2 2 ++ (slice b 4 2 ++ (slice b 6 4 ++ b.drop 10))) := by
        rw [slice_append, slice_append, slice_append]
    _ = b := by rw [slice_append b 6 4, slice_append b 4 2, slice_append b 2 2, slice_append b 0 2, List.drop_zero]

/-- A field tells its number. -/
theorem field_injective {size v v' : Nat} (hv : v < 256 ^ size) (hv' : v' < 256 ^ size)
    (h : Layout.field size v = Layout.field size v') : v = v' := by
  have hle : toLE size v = toLE size v' := by
    have := congrArg (ordered true) h
    rwa [Layout.field, Layout.field, ordered_ordered, ordered_ordered] at this
  have hnat := congrArg fromLE hle
  rwa [fromLE_toLE, fromLE_toLE, Nat.mod_eq_of_lt hv, Nat.mod_eq_of_lt hv'] at hnat

/-- Two layouts that differ in their magic numbers differ. -/
theorem relayout_injective {b : Bytes} {packet : BasePacket} {s s' e e' : UInt16}
    (h : (relayout b packet s e).bytes = (relayout b packet s' e').bytes) : s = s' ∧ e = e' := by
  simp only [Layout.bytes, relayout] at h
  obtain ⟨hs, h⟩ := List.append_inj h (by simp)
  obtain ⟨-, h⟩ := List.append_inj h rfl
  obtain ⟨-, h⟩ := List.append_inj h rfl
  obtain ⟨-, h⟩ := List.append_inj h rfl
  obtain ⟨-, h⟩ := List.append_inj h rfl
  obtain ⟨-, he⟩ := List.append_inj h rfl
  exact ⟨UInt16.toNat_inj.mp (field_injective s.toNat_lt s'.toNat_lt hs),
    UInt16.toNat_inj.mp (field_injective e.toNat_lt e'.toNat_lt he)⟩

/-- Of a decoded packet: the layout with the magic numbers it has is what was read, and the one
with the encoder's is all that was given if and only if these are its and every byte was read. -/
theorem relayout_read {env : Env} {b : Bytes} {packet : BasePacket} (h : BasePacket.decode env b = .ok packet) :
    (relayout b packet packet.magicStart packet.magicEnd).bytes = b.take packet.view.curDataOffset ∧
      ((relayout b packet 0x4567 0x89ab).bytes = b ↔
        packet.magicStart = 0x4567 ∧ packet.magicEnd = 0x89ab ∧ packet.view.curDataOffset = b.length) := by
  have happend := relayout_append h
  have hcur : packet.view.curDataOffset ≤ b.length := by
    obtain ⟨hfits, rfl⟩ := decode_eq_ok h
    exact hfits.2
  have hlength : ∀ s e, (relayout b packet s e).bytes.length = packet.view.curDataOffset := by
    intro s e
    have hlen := congrArg List.length happend
    rw [List.length_append, List.length_drop, Layout.bytes_length] at hlen
    rw [Layout.bytes_length]
    simp only [relayout] at hlen ⊢
    omega
  have htake : (relayout b packet packet.magicStart packet.magicEnd).bytes = b.take packet.view.curDataOffset := by
    conv_rhs => rw [← happend]
    rw [List.take_left' (hlength _ _)]
  refine ⟨htake, fun heq => ?_, fun hmagic => ?_⟩
  · have hall : packet.view.curDataOffset = b.length := by rw [← hlength 0x4567 0x89ab, heq]
    have hsame : (relayout b packet packet.magicStart packet.magicEnd).bytes =
        (relayout b packet 0x4567 0x89ab).bytes := by
      rw [heq, htake, hall, List.take_length]
    obtain ⟨hs, he⟩ := relayout_injective hsame
    exact ⟨hs, he, hall⟩
  · obtain ⟨hs, he, hall⟩ := hmagic
    rw [hs, he, hall, List.take_length] at htake
    exact htake

/-- **Re-encoding**, where `size_t` has 64 bits: the decoder throws, or what it leaves is a
packet whose layout with the magic numbers it has is the bytes that were read, and with
the encoder's is all that was given if and only if these are its magic numbers and every
byte was read. -/
theorem reencode_iff (env : Env) (h64 : env.platform.sizeT = 64) (b : Bytes) :
    BasePacket.decode env b = .error BufferView.tooShort ∨
    ∃ packet, BasePacket.decode env b = .ok packet ∧
      (relayout b packet packet.magicStart packet.magicEnd).bytes = b.take packet.view.curDataOffset ∧
      ((relayout b packet 0x4567 0x89ab).bytes = b ↔
        packet.magicStart = 0x4567 ∧ packet.magicEnd = 0x89ab ∧ packet.view.curDataOffset = b.length) := by
  have hdecode := decode_eq h64 b
  by_cases hfits : FitsFrame b
  · rw [if_pos hfits] at hdecode
    exact .inr ⟨packetAt env b, hdecode, relayout_read hdecode⟩
  · rw [if_neg hfits] at hdecode
    exact .inl hdecode

/-- The frame that `encode` writes, which is its own layout. -/
theorem reencode_iff_sample :
    let frame := BasePacket.encode Env.sample 0 [1, 2, 3] 5 0
    ∃ packet, BasePacket.decode Env.sample frame = .ok packet ∧
      (relayout frame packet 0x4567 0x89ab).bytes = frame := by
  intro frame
  rcases reencode_iff Env.sample rfl frame with hthrows | ⟨packet, hdecode, -, hall⟩
  · exact absurd hthrows (by decide)
  · have hpacket : packet = packetAt Env.sample frame := (decode_eq_ok hdecode).2
    exact ⟨packet, hdecode, hall.mpr (by rw [hpacket]; decide)⟩

/-- Twelve zero bytes are accepted, and a frame with a byte after it. -/
theorem other_frames_accepted :
    let zeros : Bytes := List.replicate 12 0
    let frame := BasePacket.encode Env.sample 0 [1, 2, 3] 5 0 ++ [0]
    (∃ packet, BasePacket.decode Env.sample zeros = .ok packet ∧ (relayout zeros packet 0x4567 0x89ab).bytes ≠ zeros) ∧
      ∃ packet, BasePacket.decode Env.sample frame = .ok packet ∧ (relayout frame packet 0x4567 0x89ab).bytes ≠ frame := by
  intro zeros frame
  exact ⟨⟨packetAt Env.sample zeros, by decide, by decide⟩, packetAt Env.sample frame, by decide, by decide⟩

end EyPS
