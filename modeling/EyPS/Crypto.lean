/-
`util/Crypto`: the packet cipher `Xor` and the key generator. Of the five
overloads of `Xor` the packet code calls the two that copy the packet (a
span, a vector); they are the same loop.
-/
import EyPS.Env

namespace EyPS

/-- The loop of `Xor` from index `i` on: `buf[i] ^= key[i % key_size]`. -/
def xorFrom (key : Bytes) : Nat → Bytes → Bytes
  | _, [] => []
  | i, b :: bs => (b ^^^ key.getD (i % key.length) 0) :: xorFrom key (i + 1) bs

/-- `Xor(packet, key)`: with an empty key the first byte already takes
`i % 0`; an empty packet never reaches it. -/
def xor (packet key : Bytes) : Except Err Bytes :=
  if packet ≠ [] ∧ key = [] then .error .divByZero else .ok (xorFrom key 0 packet)

@[simp] theorem xorFrom_length (key : Bytes) (i : Nat) (p : Bytes) : (xorFrom key i p).length = p.length := by
  induction p generalizing i with
  | nil => rfl
  | cons b p ih => simp [xorFrom, ih]

theorem xorFrom_xorFrom (key : Bytes) (i : Nat) (p : Bytes) : xorFrom key i (xorFrom key i p) = p := by
  induction p generalizing i with
  | nil => rfl
  | cons b p ih =>
    simp only [xorFrom, ih]
    rw [UInt8.xor_assoc, UInt8.xor_self, UInt8.xor_zero]

theorem xor_eq_ok {p key c : Bytes} : xor p key = .ok c ↔ (p ≠ [] → key ≠ []) ∧ c = xorFrom key 0 p := by
  unfold xor
  split
  next h => simp [h.1, h.2]
  next h =>
    rw [Except.ok.injEq]
    exact ⟨fun he => ⟨fun hp hk => h ⟨hp, hk⟩, he.symm⟩, fun he => he.2.symm⟩

theorem xor_of_ne {p key : Bytes} (h : key ≠ []) : xor p key = .ok (xorFrom key 0 p) :=
  xor_eq_ok.mpr ⟨fun _ => h, rfl⟩

theorem xor_nil_key {p : Bytes} (h : p ≠ []) : xor p [] = .error .divByZero := by simp [xor, h]

/-- Decrypting with the key of the encryption gives the packet back. -/
theorem xor_xor {p key c : Bytes} (h : xor p key = .ok c) : xor c key = .ok p := by
  obtain ⟨hk, rfl⟩ := xor_eq_ok.mp h
  refine xor_eq_ok.mpr ⟨fun hc => hk ?_, (xorFrom_xorFrom key 0 p).symm⟩
  rintro rfl
  exact hc rfl

/-- `generateKey`: a generator seeded twice, its next word dropped, then 512
big-endian words. -/
def generateKey (mt19937_64 : UInt64 → Nat → UInt64) (seed : UInt64) : Bytes :=
  -- `generator.seed(generator())`: the second seed is the first word of the first stream
  let generator := mt19937_64 (mt19937_64 seed 0)
  -- `for (int i = 0; i < 4096; i += 8)`; word 0 was dropped by the bare `generator()`
  ((List.range 512).foldl (fun buf i => buf.write 8 (generator (i + 1)).toNat true)
    (DynamicBuffer.new 0)).buffer

theorem foldl_write_length (f : Nat → Nat) (is : List Nat) (buf : DynamicBuffer) :
    (is.foldl (fun buf i => buf.write 8 (f i) true) buf).buffer.length =
      buf.buffer.length + 8 * is.length := by
  induction is generalizing buf with
  | nil => rfl
  | cons i is ih =>
    rw [List.foldl_cons, ih]
    simp
    omega

@[simp] theorem generateKey_length (mt seed) : (generateKey mt seed).length = 4096 := by
  simp [generateKey, foldl_write_length]

theorem generateKey_ne_nil (mt seed) : generateKey mt seed ≠ [] := by
  intro h
  simpa [h] using generateKey_length mt seed

end EyPS
