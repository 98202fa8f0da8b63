/-
The handshake contract: what one datagram of an unknown endpoint does. A
connect handshake makes one connection, initialised once, and is answered with
the conversation id and token of its control block; anything else does nothing.
-/
import EyPS.ClientTable

namespace EyPS

/-! ## Words on the wire -/

/-- Big-endian 32-bit words. -/
def words (values : List Nat) : Bytes := values.flatMap fun value => ordered true (toLE 4 value)

@[simp] theorem words_length (values : List Nat) : (words values).length = 4 * values.length := by
  induction values with
  | nil => rfl
  | cons value values ih =>
    rw [words, List.flatMap_cons, List.length_append, ← words, ih]
    simp
    omega

/-- A word read at its place. -/
theorem beAt_words (before : List Nat) {value : Nat} (after : List Nat) (hv : value < 2 ^ 32) :
    beAt (words (before ++ value :: after)) (4 * before.length) = value := by
  have hsplit : words (before ++ value :: after) = words before ++ (ordered true (toLE 4 value) ++ words after) := by
    simp [words]
  have htake : (ordered true (toLE 4 value) ++ words after).take 4 = ordered true (toLE 4 value) :=
    List.take_left' (by simp)
  have hreverse : (ordered true (toLE 4 value)).reverse = toLE 4 value := by simp [ordered]
  rw [beAt, hsplit, ← words_length before, List.drop_left, htake, hreverse, fromLE_toLE]
  exact Nat.mod_eq_of_lt hv

theorem handshakeReply_eq (now : Int) : Kcp.handshakeReply now =
    words [0x145, (Kcp.newConv now).toNat, (Kcp.newToken now).toNat, 1234567890, 0x14514545] := by
  have hmagic1 : (Handshake.magicSendBackConv.1.toUInt32).toNat = 0x145 := by decide
  have hmagic2 : (Handshake.magicSendBackConv.2.toUInt32).toNat = 0x14514545 := by decide
  have hdata : ((1234567890 : Int32).toUInt32).toNat = 1234567890 := by decide
  simp only [Kcp.handshakeReply, Handshake.encode, Handshake.new, hmagic1, hmagic2, hdata,
    DynamicBuffer.write_buffer, DynamicBuffer.new_buffer]
  rw [List.take_of_length_le (by simp)]
  simp [words]

/-! ## The contract -/

/-- What was sent, and where to. -/
def replies (l : List ServerEvent) : List (Endpoint × Bytes) :=
  l.filterMap fun
    | .replied ep bytes => some (ep, bytes)
    | _ => none

/-- **The handshake contract**, for a datagram of an endpoint not in the table. A
connect handshake adds one entry, a new object whose `Input` ran `Initialize`
once, and sends the one reply, with the id and token of its control block.
Anything else changes nothing and sends nothing. -/
theorem handshake_contract (env : Env) (s : GameServer) (d : Datagram) (hnew : s.clients d.ep.key = none)
    (hsend : d.sendOk = true) :
    (ConnectHandshake d.bytes → ∃ k cb reply,
      (s.parsePacket env d).1.clients = Function.update s.clients d.ep.key (some s.objects.length) ∧
      (s.parsePacket env d).1.objects = s.objects ++ [⟨⟨k, .running⟩, false⟩] ∧
      k.endpoint = d.ep ∧ k.state = .connected ∧ k.sessionState = .waitingForToken ∧ k.kcp = some cb ∧
      (∃ k₀, ((Kcp.new d.ep).acceptNonblock.inputCalls env.platform d.now d.sendOk d.bytes) =
        ([.sendTo reply, .initializeCb], .ok (0, k₀)) ∧ k = { k₀ with ipPortNum := d.ep.key }) ∧
      replies (s.parsePacket env d).2 = [(d.ep, reply)] ∧ reply.length = 20 ∧
      beAt reply 0 = 0x145 ∧ beAt reply 4 = cb.conv.toNat ∧ beAt reply 8 = cb.token.toNat ∧
      beAt reply 12 = 1234567890 ∧ beAt reply 16 = 0x14514545) ∧
    (¬ ConnectHandshake d.bytes →
      (s.parsePacket env d).1 = s ∧ replies (s.parsePacket env d).2 = []) := by
  rw [parsePacket_unknown env hnew]
  constructor
  · intro hconnect
    rw [accept_opens env ⟨hconnect, hsend⟩]
    have hword := fun before value after (hv : value < 2 ^ 32) =>
      @beAt_words before value after hv
    have hconv := (Kcp.newConv d.now).toNat_lt
    have htoken := (Kcp.newToken d.now).toNat_lt
    refine ⟨_, _, _, rfl, rfl, rfl, rfl, rfl, rfl, ⟨_, ?_, rfl⟩, rfl, ?_, ?_, ?_, ?_, ?_, ?_⟩
    · rw [hsend]
      rfl
    all_goals rw [handshakeReply_eq]
    · rfl
    · exact hword [] _ _ (by decide)
    · exact hword [_] _ _ hconv
    · exact hword [_, _] _ _ htoken
    · exact hword [_, _, _] _ _ (by decide)
    · exact hword [_, _, _, _] _ _ (by decide)
  · intro hother
    have hopens : ¬ d.opens := fun h => hother h.1
    obtain ⟨hs, hdec⟩ := decode_handshake env.platform d.bytes
    rw [decide_eq_false hother] at hdec
    refine ⟨(accept_not_opens env hopens).1, ?_⟩
    rw [GameServer.accept, hdec]
    rfl

/-- The connect handshake of one endpoint, on an empty table. -/
theorem handshake_contract_sample :
    let d := Datagram.connect ⟨0x0A000001, 5001⟩ 0
    ∃ reply, replies (GameServer.empty.parsePacket Env.sample d).2 = [(d.ep, reply)] ∧ reply.length = 20 ∧
      beAt reply 0 = 0x145 ∧ beAt reply 16 = 0x14514545 := by
  obtain ⟨hopens, -⟩ := handshake_contract Env.sample .empty (.connect ⟨0x0A000001, 5001⟩ 0) rfl rfl
  obtain ⟨_, _, reply, -, -, -, -, -, -, -, hsent, hlen, hfirst, -, -, -, hlast⟩ :=
    hopens (Datagram.connect_opens _ _).1
  exact ⟨reply, hsent, hlen, hfirst, hlast⟩

end EyPS
