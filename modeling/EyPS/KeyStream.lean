/-
The layout of the key stream: `generateKey` writes 512 words of the generator
big-endian, and 512 big-endian reads give them back.

The generator is seeded twice. The words that reach the key are those of the
second stream, whose seed is the first word of the first, without its word 0.
-/
import EyPS.Crypto
import EyPS.Script

namespace EyPS

open Runs

/-- One write of the loop: `buf.Write<uint64_t>(word, true)`. -/
def wordWrite (word : UInt64) : WriteOp := .write 8 ⟨word.toNat, word.toNat_lt⟩ true

/-- The words of the key, in order. -/
def keyWords (mt19937_64 : UInt64 → Nat → UInt64) (seed : UInt64) : List UInt64 :=
  (List.range 512).map fun i => mt19937_64 (mt19937_64 seed 0) (i + 1)

@[simp] theorem wordWrite_reads (word : UInt64) : (wordWrite word).reads = [.read 8 true] := rfl

@[simp] theorem wordWrite_values (word : UInt64) : (wordWrite word).values = [.number word.toNat] := rfl

theorem wordWrite_fits (word : UInt64) : (wordWrite word).Fits := trivial

/-- The loop: each word's bytes behind those of the words before it. -/
theorem foldl_write_buffer (f : Nat → UInt64) (is : List Nat) (buf : DynamicBuffer) :
    (is.foldl (fun buf i => buf.write 8 (f i).toNat true) buf).buffer =
      buf.buffer ++ (is.map (wordWrite ∘ f)).flatMap WriteOp.bytes := by
  induction is generalizing buf with
  | nil => simp
  | cons i is ih =>
    rw [List.foldl_cons, ih, List.map_cons, List.flatMap_cons, ← List.append_assoc]
    rfl

theorem generateKey_eq_bytes (mt seed) :
    generateKey mt seed = ((keyWords mt seed).map wordWrite).flatMap WriteOp.bytes := by
  have hloop := foldl_write_buffer (fun i => mt (mt seed 0) (i + 1)) (List.range 512) (.new 0)
  rw [DynamicBuffer.new_buffer, List.nil_append] at hloop
  simp only [keyWords, List.map_map, generateKey, hloop]

theorem wordWrites_reads (words : List UInt64) :
    (words.map wordWrite).flatMap WriteOp.reads = List.replicate words.length (.read 8 true) := by
  induction words with
  | nil => rfl
  | cons word words ih => rw [List.map_cons, List.flatMap_cons, ih]; rfl

theorem wordWrites_values (words : List UInt64) :
    (words.map wordWrite).flatMap WriteOp.values = words.map fun word => .number word.toNat := by
  induction words with
  | nil => rfl
  | cons word words ih => rw [List.map_cons, List.flatMap_cons, ih]; rfl

/-- Words written one after the other are read back, and nothing is left. -/
theorem words_read_back {P : Platform} {words : List UInt64}
    (h : ((words.map wordWrite).flatMap WriteOp.bytes).length < 2 ^ P.sizeT) :
    let view := BufferView.new ((words.map wordWrite).flatMap WriteOp.bytes)
    let reads := List.replicate words.length (ReadOp.read 8 true)
    log (readStep P) view reads = words.map (fun word => .ok (.number word.toNat)) ∧
      (final (readStep P) view reads).getRemainingBytes P = 0 := by
  intro view reads
  have hfits : ∀ op ∈ words.map wordWrite, op.Fits := by
    intro op hop
    obtain ⟨word, -, rfl⟩ := List.mem_map.mp hop
    exact wordWrite_fits word
  have hreads : reads = (words.map wordWrite).flatMap WriteOp.reads := (wordWrites_reads words).symm
  obtain ⟨hlog, hfinal⟩ := @read_back_all P [] _ hfits (by rwa [List.nil_append])
  have hview : view = .split [] ((words.map wordWrite).flatMap WriteOp.bytes) := rfl
  rw [hreads, hview]
  refine ⟨?_, ?_⟩
  · rw [wordWrites_values, List.map_map] at hlog
    exact hlog
  · have hrest : ([] : Bytes).length < 2 ^ P.sizeT := Nat.two_pow_pos _
    rw [hfinal]
    exact BufferView.getRemainingBytes_split P hrest

/-- **The key stream**: 4096 bytes, which 512 big-endian reads give back as words
1 to 512 of the second stream, and nothing is left. -/
theorem generateKey_reads (P : Platform) (mt19937_64 : UInt64 → Nat → UInt64) (seed : UInt64) :
    let view := BufferView.new (generateKey mt19937_64 seed)
    let reads := List.replicate 512 (ReadOp.read 8 true)
    (generateKey mt19937_64 seed).length = 4096 ∧
      log (readStep P) view reads =
        (List.range 512).map (fun i => .ok (.number (mt19937_64 (mt19937_64 seed 0) (i + 1)).toNat)) ∧
      (final (readStep P) view reads).getRemainingBytes P = 0 := by
  intro view reads
  have hpow := P.two_pow_32_le
  have hlen := generateKey_length mt19937_64 seed
  have hwords : (keyWords mt19937_64 seed).length = 512 := by
    rw [keyWords, List.length_map, List.length_range]
  obtain ⟨hlog, hleft⟩ := @words_read_back P (keyWords mt19937_64 seed) (by
    rw [← generateKey_eq_bytes, hlen]
    omega)
  rw [← generateKey_eq_bytes, hwords] at hlog hleft
  refine ⟨hlen, ?_, hleft⟩
  rw [hlog, keyWords, List.map_map]
  simp only [Function.comp_def]

end EyPS
