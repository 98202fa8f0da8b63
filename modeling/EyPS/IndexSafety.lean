/-
Where the packet decoder indexes its view. `ReadImpl` and `ReadView` take the
address of `m_DataView[m_CurDataOffset]` once their guard has let the read
through. The guard compares the end of the read with the size, so a read of
nothing passes at the end of the view, where there is no element to index;
`ReadString` and `ReadLongString` leave out the index for a length of zero.

Where the guard lets a sum through that wrapped, the index is evaluated and
the model stops there (`outOfBounds`).
-/
import EyPS.Grammar
import EyPS.Logged

namespace EyPS

/-- A computation with the offsets at which it indexes the view. -/
abbrev Indexed := Logged Err Nat

namespace BufferView

/-- `ReadView`, or `ReadImpl` into a buffer of that size. -/
def readViewIndexed (P : Platform) (v : BufferView) (viewSize : Nat) : Indexed (Bytes × BufferView) :=
  (v.readView P viewSize, if v.canReadBytes P viewSize then [v.curDataOffset] else [])

/-- `Read<T>`. -/
def readIndexed (P : Platform) (v : BufferView) (size : Nat) (bigEndian : Bool) : Indexed (Nat × BufferView) := do
  let (bs, v) ← v.readViewIndexed P size
  return (fromLE (ordered bigEndian bs), v)

end BufferView

/-- `BasePacket.decode` with its indexes. -/
def BasePacket.decodeIndexed (env : Env) (data : Bytes) : Indexed BasePacket := do
  let P := env.platform
  let v := BufferView.new data
  let (magicStart, v) ← v.readIndexed P 2 true
  let (packetId, v) ← v.readIndexed P 2 true
  let (metadataSize, v) ← v.readIndexed P 2 true
  let (dataSize, v) ← v.readIndexed P 4 true
  let (metaData, v) ← v.readViewIndexed P metadataSize
  let (body, v) ← v.readViewIndexed P dataSize
  let (magicEnd, v) ← v.readIndexed P 2 true
  return {
    view := v
    magicStart := UInt16.ofNat magicStart
    packetId := UInt16.ofNat packetId
    metadataSize := UInt16.ofNat metadataSize
    dataSize := UInt32.ofNat dataSize
    metadata := env.proto.parsePacketHead metaData
    data := body
    magicEnd := UInt16.ofNat magicEnd }

/-- Every index is inside the view. -/
def IndexSafe (env : Env) (b : Bytes) : Prop := (BasePacket.decodeIndexed env b).All (· < b.length)

theorem readIndexed_fst (P : Platform) (v : BufferView) (size : Nat) (be : Bool) :
    (v.readIndexed P size be).1 = v.read P size be := by
  rw [BufferView.readIndexed, Logged.fst_bind]
  rfl

/-- The decoder with its indexes is the decoder. -/
theorem decodeIndexed_fst (env : Env) (b : Bytes) :
    (BasePacket.decodeIndexed env b).1 = BasePacket.decode env b := by
  simp only [BasePacket.decodeIndexed, BasePacket.decode, Logged.fst_bind, readIndexed_fst]
  rfl

/-! ## One read -/

/-- A read at the end of the view that the guard lets through: of nothing, or with a
sum that wraps. -/
def IndexesEnd (P : Platform) (b : Bytes) (offset n : Nat) : Prop :=
  b.length = offset ∧ (n = 0 ∨ 2 ^ P.sizeT ≤ offset + n)

section Reads

variable {P : Platform} {b : Bytes} {offset n : Nat}

/-- The guard lets a read at the end of the view through exactly in these cases. -/
theorem canReadBytes_end (hn : n ≤ 2 ^ P.sizeT) (hend : b.length = offset) :
    (⟨b, offset, []⟩ : BufferView).canReadBytes P n = true ↔ IndexesEnd P b offset n := by
  simp only [BufferView.canReadBytes, decide_eq_true_eq, IndexesEnd, hend, true_and]
  by_cases hwrap : 2 ^ P.sizeT ≤ offset + n
  · refine iff_of_true ?_ (.inr hwrap)
    rw [Nat.mod_eq_sub_mod hwrap]
    exact Nat.le_trans (Nat.mod_le _ _) (by omega)
  · rw [Nat.mod_eq_of_lt (by omega)]
    omega

theorem readViewIndexed_safe (hn : n ≤ 2 ^ P.sizeT) (ho : offset ≤ b.length) :
    ((⟨b, offset, []⟩ : BufferView).readViewIndexed P n).All (· < b.length) ↔ ¬ IndexesEnd P b offset n := by
  rcases Nat.lt_or_eq_of_le ho with hlt | heq
  · refine iff_of_true (fun i hi => ?_) fun h => by simp only [IndexesEnd] at h; omega
    simp only [BufferView.readViewIndexed] at hi
    split at hi
    · obtain rfl := List.mem_singleton.mp hi
      exact hlt
    · cases hi
  · rw [← canReadBytes_end hn heq.symm]
    simp [Logged.All, BufferView.readViewIndexed, heq]

theorem readIndexed_safe (hn : n ≤ 2 ^ P.sizeT) (ho : offset ≤ b.length) :
    ((⟨b, offset, []⟩ : BufferView).readIndexed P n true).All (· < b.length) ↔ ¬ IndexesEnd P b offset n := by
  rw [BufferView.readIndexed, Logged.all_bind, readViewIndexed_safe hn ho]
  exact and_iff_left fun _ _ => Logged.all_pure _

variable {α : Type} {R : Prop}

/-- A read and what comes after it, `R` being what goes wrong there. -/
theorem readViewIndexed_bind_safe {f : Bytes × BufferView → Indexed α} (hn : n ≤ 2 ^ P.sizeT)
    (ho : offset ≤ b.length) (hR : R → offset + n ≤ b.length)
    (hrest : offset + n ≤ b.length → ((f (slice b offset n, ⟨b, offset + n, []⟩)).All (· < b.length) ↔ ¬ R)) :
    ((⟨b, offset, []⟩ : BufferView).readViewIndexed P n >>= f).All (· < b.length) ↔
      ¬ (IndexesEnd P b offset n ∨ R) := by
  rw [Logged.all_bind, readViewIndexed_safe hn ho, not_or]
  refine and_congr_right fun _ => ⟨fun h hr => ?_, fun h a ha => ?_⟩
  · exact (hrest (hR hr)).mp (h _ (readView_eq_ok.mpr ⟨hR hr, rfl⟩)) hr
  · obtain ⟨hlen, rfl⟩ := readView_eq_ok.mp ha
    exact (hrest hlen).mpr h

theorem readIndexed_bind_safe {f : Nat × BufferView → Indexed α} (hn : n ≤ 2 ^ P.sizeT)
    (ho : offset ≤ b.length) (hR : R → offset + n ≤ b.length)
    (hrest : offset + n ≤ b.length → ((f (beNat n b offset, ⟨b, offset + n, []⟩)).All (· < b.length) ↔ ¬ R)) :
    ((⟨b, offset, []⟩ : BufferView).readIndexed P n true >>= f).All (· < b.length) ↔
      ¬ (IndexesEnd P b offset n ∨ R) := by
  rw [Logged.all_bind, readIndexed_safe hn ho, not_or]
  refine and_congr_right fun _ => ⟨fun h hr => ?_, fun h a ha => ?_⟩
  · have hread := (readIndexed_fst P ⟨b, offset, []⟩ n true).trans (read_eq_ok.mpr ⟨hR hr, rfl⟩)
    exact (hrest (hR hr)).mp (h _ hread) hr
  · obtain ⟨hlen, rfl⟩ := read_eq_ok.mp ((readIndexed_fst P ⟨b, offset, []⟩ n true).symm.trans ha)
    exact (hrest hlen).mpr h

end Reads

/-! ## The decoder -/

/-- A packet that ends where the decoder takes the address of its metadata, of its data
or of its end magic, this read being let through. -/
def EndsAtIndex (P : Platform) (b : Bytes) : Prop :=
  IndexesEnd P b 10 (metadataLength b) ∨ IndexesEnd P b (10 + metadataLength b) (dataLength b) ∨
    IndexesEnd P b (10 + metadataLength b + dataLength b) 2

/-- **Every index is inside the view** exactly unless the packet ends at one. -/
theorem index_safe_iff (env : Env) (b : Bytes) : IndexSafe env b ↔ ¬ EndsAtIndex env.platform b := by
  have hm := metadataLength_lt b
  have hd := dataLength_lt b
  have hsize : 4294967296 ≤ 2 ^ env.platform.sizeT := env.platform.two_pow_32_le
  let ends := IndexesEnd env.platform b
  let m := metadataLength b
  let d := dataLength b
  -- where each of the seven reads would index the end, in their order
  have hreads : IndexSafe env b ↔
      ¬ (ends 0 2 ∨ ends 2 2 ∨ ends 4 2 ∨ ends 6 4 ∨ ends 10 m ∨ ends (10 + m) d ∨ ends (10 + m + d) 2 ∨ False) := by
    rw [IndexSafe, BasePacket.decodeIndexed, BufferView.new]
    refine readIndexed_bind_safe (by omega) (Nat.zero_le _) (fun h => ?_) fun h2 => ?_
    · simp only [ends, IndexesEnd, or_false] at h
      omega
    refine readIndexed_bind_safe (by omega) h2 (fun h => ?_) fun h4 => ?_
    · simp only [ends, IndexesEnd, or_false] at h
      omega
    refine readIndexed_bind_safe (by omega) h4 (fun h => ?_) fun h6 => ?_
    · simp only [ends, IndexesEnd, or_false] at h
      omega
    refine readIndexed_bind_safe (by omega) h6 (fun h => ?_) fun h10 => ?_
    · simp only [ends, IndexesEnd, or_false] at h
      omega
    refine readViewIndexed_bind_safe (show m ≤ _ by omega) h10 (fun h => ?_) fun hmetadata => ?_
    · simp only [ends, IndexesEnd, or_false] at h
      show 10 + m ≤ b.length
      omega
    refine readViewIndexed_bind_safe (show d ≤ _ by omega) hmetadata (fun h => ?_) fun hdata => ?_
    · simp only [ends, IndexesEnd, or_false] at h
      show 10 + m + d ≤ b.length
      omega
    refine readIndexed_bind_safe (by omega) hdata False.elim fun _ => ?_
    exact iff_of_true (Logged.all_pure _) not_false
  rw [hreads, EndsAtIndex]
  simp only [ends, IndexesEnd, m, d, or_false]
  omega

/-- A header of zeros and nothing after it: the read of no metadata indexes the
eleventh byte of ten. -/
theorem bare_header_indexes_end :
    10 ∈ (BasePacket.decodeIndexed Env.sample (List.replicate 10 0)).2 ∧ ¬ IndexSafe Env.sample (List.replicate 10 0) := by
  have hindex : 10 ∈ (BasePacket.decodeIndexed Env.sample (List.replicate 10 0)).2 := by decide
  exact ⟨hindex, fun h => absurd (h 10 hindex) (by decide)⟩

end EyPS
