/-
The five overloads of `Xor`, each as it is written: what its loop works on, what it
copies and what it returns. Three encipher a copy on the heap, one enciphers the
caller's string and returns it. The last copies the bytes at `&packet`, that is the
pointer, to a local array, enciphers the caller's bytes and returns the array.

The key is in memory of its own: no overload is given a key that is part of the packet
it writes to.
-/
import EyPS.Crypto

namespace EyPS

/-- How a call of `Xor` can go wrong. -/
inductive XorErr
  /-- `i % 0` -/
  | divByZero
  /-- `++i` past the largest `int` -/
  | intOverflow
  deriving DecidableEq

/-- `for (int i = 0; i < packet_size; ++i) buf[i] ^= key[i % key_size]` from index `i`,
with `left` indices to go. -/
def xorLoop (key : Bytes) : Nat → Nat → Bytes → Except XorErr Bytes
  | 0, _, buf => .ok buf
  | left + 1, i, buf =>
    if key = [] then .error .divByZero
    else if i + 1 = 2 ^ 31 then .error .intOverflow
    else xorLoop key left (i + 1) (buf.set i (buf.getD i 0 ^^^ key.getD (i % key.length) 0))

/-- Where the returned bytes are. -/
inductive Storage
  | heap
  | caller
  /-- a local array of a call that has returned -/
  | deadFrame
  deriving DecidableEq

/-- What a call returns, and the caller's packet after it. -/
structure XorResult where
  storage : Storage
  bytes : Bytes
  packet : Bytes
  deriving DecidableEq

/-- The byte sequence the caller has: none where the storage is gone, unless it is empty. -/
def XorResult.sequence (r : XorResult) : Option Bytes :=
  if r.storage = .deadFrame ∧ r.bytes ≠ [] then none else some r.bytes

/-- The overloads that copy: `new uint8_t [packet_size]`, `memcpy`, the loop. -/
def xorCopy (packet key : Bytes) : Except XorErr XorResult := do
  let buf ← xorLoop key packet.length 0 packet
  return ⟨.heap, buf, packet⟩

/-- `Xor(std::span<uint8_t>, std::span<uint8_t>)` -/
def xorSpan (packet key : Bytes) : Except XorErr XorResult := xorCopy packet key

/-- `Xor(std::vector<uint8_t>, std::span<uint8_t>)` -/
def xorVector (packet key : Bytes) : Except XorErr XorResult := xorCopy packet key

/-- `Xor(std::string_view, std::span<uint8_t>)` -/
def xorStringView (packet key : Bytes) : Except XorErr XorResult := xorCopy packet key

/-- `Xor(std::string&, std::string_view)`: in place. -/
def xorString (packet key : Bytes) : Except XorErr XorResult := do
  let packet ← xorLoop key packet.length 0 packet
  return ⟨.caller, packet, packet⟩

/-- `Xor(uint8_t*, std::span<uint8_t>, size_t)`; `atPointer` is the memory from
`&packet` on. -/
def xorPointer (atPointer : Nat → UInt8) (packet key : Bytes) : Except XorErr XorResult := do
  -- `memcpy(buf, &packet, packet_size)`
  let buf := (List.range packet.length).map atPointer
  let packet ← xorLoop key packet.length 0 packet
  return ⟨.deadFrame, buf, packet⟩

inductive XorOverload
  | span
  | vector
  | stringView
  | string
  | pointer
  deriving DecidableEq

def XorOverload.call (atPointer : Nat → UInt8) (packet key : Bytes) : XorOverload → Except XorErr XorResult
  | .span => xorSpan packet key
  | .vector => xorVector packet key
  | .stringView => xorStringView packet key
  | .string => xorString packet key
  | .pointer => xorPointer atPointer packet key

/-! ## The cipher -/

/-- Byte by byte the packet and the repeated key. -/
structure IsCipher (packet key out : Bytes) : Prop where
  length : out.length = packet.length
  byte : ∀ i, out[i]? = packet[i]?.map (· ^^^ key.getD (i % key.length) 0)

/-- The overload returns the cipher of the packet. -/
def XorOverload.Enciphers (o : XorOverload) (atPointer : Nat → UInt8) (packet key : Bytes) : Prop :=
  ∃ r c, o.call atPointer packet key = .ok r ∧ r.sequence = some c ∧ IsCipher packet key c

theorem xorFrom_getElem? (key : Bytes) (i : Nat) (p : Bytes) (j : Nat) :
    (xorFrom key i p)[j]? = p[j]?.map (· ^^^ key.getD ((i + j) % key.length) 0) := by
  induction p generalizing i j with
  | nil => rfl
  | cons b p ih =>
    cases j with
    | zero => rfl
    | succ j =>
      rw [xorFrom, List.getElem?_cons_succ, List.getElem?_cons_succ, ih, Nat.add_right_comm, Nat.add_assoc]

theorem xorFrom_isCipher (key p : Bytes) : IsCipher p key (xorFrom key 0 p) where
  length := xorFrom_length key 0 p
  byte i := by rw [xorFrom_getElem?, Nat.zero_add]

/-- The loop: what is behind index `i` is done, what is before it is not. -/
theorem xorLoop_eq {key : Bytes} (hk : key ≠ []) {rest : Bytes} :
    ∀ {done : Bytes}, done.length + rest.length < 2 ^ 31 →
      xorLoop key rest.length done.length (done ++ rest) = .ok (done ++ xorFrom key done.length rest) := by
  induction rest with
  | nil =>
    intro done h
    rfl
  | cons b rest ih =>
    intro done h
    rw [List.length_cons] at h
    let c := b ^^^ key.getD (done.length % key.length) 0
    have hset : (done ++ b :: rest).set done.length
        ((done ++ b :: rest).getD done.length 0 ^^^ key.getD (done.length % key.length) 0) =
          (done ++ [c]) ++ rest := by
      simp [c]
    have hlen : done.length + 1 = (done ++ [c]).length := by simp
    rw [List.length_cons, xorLoop, if_neg hk, if_neg (by omega), hset, hlen, ih (by rw [← hlen]; omega),
      xorFrom, List.append_assoc, hlen]
    rfl

section Overloads

variable {p key : Bytes}

theorem xorLoop_start (hk : key ≠ []) (hp : p.length < 2 ^ 31) :
    xorLoop key p.length 0 p = .ok (xorFrom key 0 p) :=
  @xorLoop_eq key hk p [] (by simpa using hp)

theorem xorCopy_eq (hk : key ≠ []) (hp : p.length < 2 ^ 31) :
    xorCopy p key = .ok ⟨.heap, xorFrom key 0 p, p⟩ := by
  rw [xorCopy, xorLoop_start hk hp]
  rfl

theorem xorString_eq (hk : key ≠ []) (hp : p.length < 2 ^ 31) :
    xorString p key = .ok ⟨.caller, xorFrom key 0 p, xorFrom key 0 p⟩ := by
  rw [xorString, xorLoop_start hk hp]
  rfl

theorem xorPointer_eq (atPointer : Nat → UInt8) (hk : key ≠ []) (hp : p.length < 2 ^ 31) :
    xorPointer atPointer p key =
      .ok ⟨.deadFrame, (List.range p.length).map atPointer, xorFrom key 0 p⟩ := by
  rw [xorPointer, xorLoop_start hk hp]
  rfl

/-- The packet code's `xor` is the overloads that copy. -/
theorem xor_eq_xorCopy (hk : key ≠ []) (hp : p.length < 2 ^ 31) :
    ∃ r, xorCopy p key = .ok r ∧ xor p key = .ok r.bytes :=
  ⟨_, xorCopy_eq hk hp, xor_of_ne hk⟩

end Overloads

/-- **The overloads of `Xor`**: each returns the cipher of every packet, but for the one
that takes a pointer, which does so only for the empty packet. -/
theorem xor_enciphers_iff (o : XorOverload) (atPointer : Nat → UInt8) (p key : Bytes) (hk : key ≠ [])
    (hp : p.length < 2 ^ 31) : o.Enciphers atPointer p key ↔ (o = .pointer → p = []) := by
  have halive : ∀ {r : XorResult}, o.call atPointer p key = .ok r → r.storage ≠ .deadFrame →
      r.bytes = xorFrom key 0 p → o.Enciphers atPointer p key := by
    intro r hr hstorage hbytes
    refine ⟨r, xorFrom key 0 p, hr, ?_, xorFrom_isCipher key p⟩
    rw [XorResult.sequence, if_neg fun h => hstorage h.1, hbytes]
  cases o with
  | span => exact iff_of_true (halive (xorCopy_eq hk hp) (by simp) rfl) (by simp)
  | vector => exact iff_of_true (halive (xorCopy_eq hk hp) (by simp) rfl) (by simp)
  | stringView => exact iff_of_true (halive (xorCopy_eq hk hp) (by simp) rfl) (by simp)
  | string => exact iff_of_true (halive (xorString_eq hk hp) (by simp) rfl) (by simp)
  | pointer =>
    refine ⟨fun h _ => ?_, fun h => ?_⟩
    · obtain ⟨r, c, hr, hc, -⟩ := h
      rw [XorOverload.call, xorPointer_eq atPointer hk hp] at hr
      cases hr
      refine Classical.byContradiction fun hne => ?_
      have hbytes : (List.range p.length).map atPointer ≠ [] := by simpa using hne
      rw [XorResult.sequence, if_pos ⟨rfl, hbytes⟩] at hc
      cases hc
    · obtain rfl := h rfl
      exact ⟨⟨.deadFrame, [], []⟩, [], rfl, rfl, rfl, fun i => rfl⟩

/-- A packet longer than the key, in place. -/
theorem xor_enciphers_sample : XorOverload.string.Enciphers (fun _ => 0) [1, 2, 3] [7, 9] :=
  (xor_enciphers_iff .string (fun _ => 0) [1, 2, 3] [7, 9] (by decide) (by decide)).mpr nofun

/-- One byte through its pointer: the caller's byte is enciphered, and what is returned is
gone. -/
theorem xorPointer_returns_nothing :
    xorPointer (fun _ => 0) [1] [7] = .ok ⟨.deadFrame, [0], [6]⟩ ∧
      ¬ XorOverload.pointer.Enciphers (fun _ => 0) [1] [7] := by
  refine ⟨rfl, fun h => ?_⟩
  obtain ⟨r, c, hr, hc, -⟩ := h
  cases hr
  cases hc

end EyPS
