/-
A `Handshake` object that is encoded more than once. `Encode` appends its five
words to a buffer that the object keeps, and returns the first 20 bytes of
that buffer: those of its first call, whatever the fields are by then.
-/
import EyPS.Accept

namespace EyPS

/-! ## Histories of an object -/

/-- The five words a handshake carries. -/
structure HandshakeFields where
  magic1 : Int32
  conv : UInt32
  token : UInt32
  data : Int32
  magic2 : Int32
  deriving DecidableEq

def Handshake.fields (h : Handshake) : HandshakeFields := ⟨h.magic1, h.conv, h.token, h.data, h.magic2⟩

/-- The constructors of `Handshake`. -/
inductive HandshakeCtor
  /-- `Handshake()` -/
  | default
  /-- `Handshake(magic, conv, data, token)` -/
  | ofMagic (magic : Int32 × Int32) (conv data token : Int32)

def HandshakeCtor.run : HandshakeCtor → Handshake
  | .default => .new
  | .ofMagic magic conv data token =>
    { magic1 := magic.1, conv := conv.toUInt32, token := token.toUInt32, data, magic2 := magic.2
      buffer := .new 0 }

/-- An assignment to a field, or a call of `Encode`. -/
inductive HandshakeAct
  | setMagic1 (x : Int32)
  | setConv (x : UInt32)
  | setToken (x : UInt32)
  | setData (x : Int32)
  | setMagic2 (x : Int32)
  | encode

/-- A call of `Encode`: the fields it was made with, and the bytes it returned. -/
structure EncodeCall where
  fields : HandshakeFields
  bytes : Bytes
  deriving DecidableEq

def handshakeStep (h : Handshake) : HandshakeAct → Handshake × List EncodeCall
  | .setMagic1 x => ({ h with magic1 := x }, [])
  | .setConv x => ({ h with conv := x }, [])
  | .setToken x => ({ h with token := x }, [])
  | .setData x => ({ h with data := x }, [])
  | .setMagic2 x => ({ h with magic2 := x }, [])
  | .encode => (h.encode.2, [⟨h.fields, h.encode.1⟩])

/-- What a history does to the fields alone. -/
def fieldsStep (f : HandshakeFields) : HandshakeAct → HandshakeFields × List HandshakeFields
  | .setMagic1 x => ({ f with magic1 := x }, [])
  | .setConv x => ({ f with conv := x }, [])
  | .setToken x => ({ f with token := x }, [])
  | .setData x => ({ f with data := x }, [])
  | .setMagic2 x => ({ f with magic2 := x }, [])
  | .encode => (f, [f])

/-- The fields at each call of `Encode`. -/
def fieldsAtEncodes (f : HandshakeFields) (acts : List HandshakeAct) : List HandshakeFields :=
  Runs.log fieldsStep f acts

/-- 20 bytes that `Decode`, on a new object, reads the fields of the call from. -/
def EncodeCall.ReadsBack (P : Platform) (e : EncodeCall) : Prop :=
  e.bytes.length = 20 ∧
    ∃ verified h, Handshake.new.decode P (.new e.bytes) = .ok (verified, h) ∧ h.fields = e.fields

/-! ## The frame of five fields -/

def HandshakeFields.words (f : HandshakeFields) : List Nat :=
  [f.magic1.toUInt32.toNat, f.conv.toNat, f.token.toNat, f.data.toUInt32.toNat, f.magic2.toUInt32.toNat]

/-- The fields on the wire. -/
def HandshakeFields.frame (f : HandshakeFields) : Bytes := EyPS.words f.words

@[simp] theorem frame_length (f : HandshakeFields) : f.frame.length = 20 := by
  rw [HandshakeFields.frame, words_length]
  rfl

/-- Each word is read at its place. -/
theorem beAt_frame (f : HandshakeFields) : beAt f.frame 0 = f.magic1.toUInt32.toNat ∧
    beAt f.frame 4 = f.conv.toNat ∧ beAt f.frame 8 = f.token.toNat ∧
    beAt f.frame 12 = f.data.toUInt32.toNat ∧ beAt f.frame 16 = f.magic2.toUInt32.toNat := by
  have hword := fun before after (x : UInt32) => @beAt_words before x.toNat after x.toNat_lt
  exact ⟨hword [] _ _, hword [_] _ _, hword [_, _] _ _, hword [_, _, _] _ _, hword [_, _, _, _] _ _⟩

/-- `Decode` reads the fields off their frame. -/
theorem decode_frame (P : Platform) (f : HandshakeFields) :
    ∃ verified h, Handshake.new.decode P (.new f.frame) = .ok (verified, h) ∧ h.fields = f := by
  have hread : ∀ offset, offset ≤ 16 → (⟨f.frame, offset, []⟩ : BufferView).read P 4 true =
      .ok (beAt f.frame offset, ⟨f.frame, offset + 4, []⟩) := fun offset ho =>
    read_ok P (v := ⟨f.frame, offset, []⟩) (by simp; omega) (by dsimp only; omega)
  obtain ⟨h0, h4, h8, h12, h16⟩ := beAt_frame f
  have hdec : Handshake.new.decode P (.new f.frame) = .ok
      (decide (f.magic1.toUInt32 = Handshake.magicConnect.1 ∧ f.magic2.toUInt32 = Handshake.magicConnect.2),
        { Handshake.new with
          magic1 := f.magic1, conv := f.conv, token := f.token, data := f.data, magic2 := f.magic2 }) := by
    unfold Handshake.decode BufferView.new
    rw [if_neg (by simp [Handshake.len])]
    simp only [bind, Except.bind, pure, Except.pure, hread 0 (by omega), hread 4 (by omega), hread 8 (by omega),
      hread 12 (by omega), hread 16 (by omega), h0, h4, h8, h12, h16, UInt32.ofNat_toNat]
    rfl
  exact ⟨_, _, hdec, rfl⟩

/-- The frame of some fields reads back as those and no others. -/
theorem readsBack_frame (P : Platform) (f g : HandshakeFields) :
    EncodeCall.ReadsBack P ⟨f, g.frame⟩ ↔ g = f := by
  obtain ⟨verified, h, hdec, hg⟩ := decode_frame P g
  constructor
  · rintro ⟨-, verified', h', hdec', hf⟩
    rw [hdec] at hdec'
    cases hdec'
    exact hg.symm.trans hf
  · rintro rfl
    exact ⟨frame_length g, verified, h, hdec, hg⟩

/-! ## What the calls return -/

theorem encode_bytes (h : Handshake) : h.encode.1 = (h.buffer.buffer ++ h.fields.frame).take 20 := by
  simp [Handshake.encode, Handshake.fields, HandshakeFields.frame, HandshakeFields.words, words]

theorem encode_buffer (h : Handshake) : h.encode.2.buffer.buffer = h.buffer.buffer ++ h.fields.frame := by
  simp [Handshake.encode, Handshake.fields, HandshakeFields.frame, HandshakeFields.words, words]

theorem handshakeStep_fields (h : Handshake) (a : HandshakeAct) :
    (handshakeStep h a).1.fields = (fieldsStep h.fields a).1 := by
  cases a <;> rfl

/-- Once the buffer begins with a frame, every call returns it. -/
theorem log_begun {h : Handshake} {f₀ : HandshakeFields} {rest : Bytes}
    (hb : h.buffer.buffer = f₀.frame ++ rest) (acts : List HandshakeAct) :
    Runs.log handshakeStep h acts = (fieldsAtEncodes h.fields acts).map (⟨·, f₀.frame⟩) := by
  induction acts generalizing h rest with
  | nil => rfl
  | cons a acts ih =>
    have hfields := handshakeStep_fields h a
    rw [fieldsAtEncodes, Runs.log_cons, Runs.log_cons, ← hfields, List.map_append]
    cases a with
    | encode =>
      have hbytes : h.encode.1 = f₀.frame := by
        rw [encode_bytes, hb, List.append_assoc]
        exact List.take_left' (frame_length f₀)
      have hnext : h.encode.2.buffer.buffer = f₀.frame ++ (rest ++ h.fields.frame) := by
        rw [encode_buffer, hb, List.append_assoc]
      show ⟨h.fields, h.encode.1⟩ :: Runs.log handshakeStep h.encode.2 acts = _
      rw [hbytes, ih hnext]
      rfl
    | _ => exact ih hb

/-- Of an object whose buffer is empty every call returns the frame of the first. -/
theorem log_fresh {h : Handshake} (hb : h.buffer.buffer = []) (acts : List HandshakeAct) :
    Runs.log handshakeStep h acts = (fieldsAtEncodes h.fields acts).map fun f =>
      ⟨f, ((fieldsAtEncodes h.fields acts).head?.getD f).frame⟩ := by
  induction acts generalizing h with
  | nil => rfl
  | cons a acts ih =>
    have hfields := handshakeStep_fields h a
    rw [fieldsAtEncodes, Runs.log_cons, Runs.log_cons, ← hfields]
    cases a with
    | encode =>
      have hbytes : h.encode.1 = h.fields.frame := by
        rw [encode_bytes, hb, List.nil_append]
        exact List.take_of_length_le (by simp)
      have hnext : h.encode.2.buffer.buffer = h.fields.frame ++ [] := by simp [encode_buffer, hb]
      show ⟨h.fields, h.encode.1⟩ :: Runs.log handshakeStep h.encode.2 acts = _
      rw [hbytes, log_begun hnext]
      rfl
    | _ => exact ih hb

/-! ## Histories -/

theorem run_buffer (c : HandshakeCtor) : c.run.buffer.buffer = [] := by
  cases c <;> rfl

/-- **Every call of `Encode` reads back** exactly if all of the history's calls are made
with the fields of the first. -/
theorem encode_reuse_iff (P : Platform) (c : HandshakeCtor) (acts : List HandshakeAct) :
    (∀ e ∈ Runs.log handshakeStep c.run acts, e.ReadsBack P) ↔
      ∀ f ∈ fieldsAtEncodes c.run.fields acts, (fieldsAtEncodes c.run.fields acts).head? = some f := by
  rw [log_fresh (run_buffer c), List.forall_mem_map]
  refine forall₂_congr fun f hf => ?_
  rw [readsBack_frame]
  cases hfirst : (fieldsAtEncodes c.run.fields acts).head? with
  | none => simp [List.head?_eq_none_iff.mp hfirst] at hf
  | some f₀ => simp

/-- A second call after an assignment still returns the first id. -/
theorem second_encode_stale :
    let acts := [HandshakeAct.encode, .setConv 2, .encode]
    ∃ e ∈ Runs.log handshakeStep HandshakeCtor.default.run acts, e.fields.conv = 2 ∧ beAt e.bytes 4 = 1 ∧
      ∀ P, ¬ e.ReadsBack P := by
  refine ⟨⟨⟨0, 2, 1, 1234567890, 0⟩, HandshakeFields.frame ⟨0, 1, 1, 1234567890, 0⟩⟩, by decide, rfl, by decide,
    fun P h => ?_⟩
  have hsame := (readsBack_frame P _ _).mp h
  exact absurd (congrArg HandshakeFields.conv hsame) (by decide)

end EyPS
