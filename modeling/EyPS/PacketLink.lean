/-
Game packets over the link: framed by `BasePacket`, encrypted by `Xor`, each under
its own key, and handed to `ikcp_send`; at the other end `ikcp_recv`'s messages are
decrypted under these keys, in their order, and decoded.

The engine keeps the messages in order and whole, so the n-th message is decrypted
with the n-th key, which is all the cipher needs.
-/
import Mathlib.Data.List.Forall2
import EyPS.Frame
import EyPS.KcpDelivery
import EyPS.PacketQueue

namespace EyPS

/-- A packet to be sent: what the encoding constructor is given, what its `time(0)`
answers, and the key. -/
structure Outgoing where
  time : UInt64
  data : Bytes
  packetId : UInt16
  clientSequence : UInt32
  key : Bytes

namespace Outgoing

variable {env : Env} {o : Outgoing}

/-- The message that is sent. -/
def encrypted (env : Env) (o : Outgoing) : Bytes :=
  xorFrom o.key 0 (BasePacket.encode env o.time o.data o.packetId o.clientSequence)

/-- The sizes fit their fields, the metadata reads back, and there is a key. -/
structure Fits (env : Env) (o : Outgoing) : Prop where
  head : (BasePacket.head env o.time o.clientSequence).length < 65536
  parse : env.proto.parsePacketHead (BasePacket.head env o.time o.clientSequence) = ⟨o.clientSequence, o.time⟩
  length : (BasePacket.encode env o.time o.data o.packetId o.clientSequence).length < 2 ^ 31
  key : o.key ≠ []

/-- The message decrypts and decodes to this packet. -/
def ReadsAs (env : Env) (o : Outgoing) (message : Bytes) : Prop :=
  ∃ packet, decrypted env message o.key = .ok packet ∧ packet.packetId = o.packetId ∧ packet.data = o.data ∧
    packet.metadata = ⟨o.clientSequence, o.time⟩

theorem Fits.readsAs (h : o.Fits env) : o.ReadsAs env (o.encrypted env) := by
  have hfits := layout_fits h.head h.length
  have hlength := h.length
  have hsize : (BasePacket.layout env o.time o.data o.packetId o.clientSequence).bytes.length <
      2 ^ env.platform.sizeT := by
    rw [← encode_eq_layout]
    exact Nat.lt_of_lt_of_le hlength (Nat.le_trans (by decide) env.platform.two_pow_32_le)
  have hdecode := decode_layout hfits hsize
  have hplain : xor (o.encrypted env) o.key =
      .ok (BasePacket.layout env o.time o.data o.packetId o.clientSequence).bytes := by
    rw [xor_of_ne h.key, encrypted, xorFrom_xorFrom, encode_eq_layout]
  exact ⟨_, decrypted_eq_ok.mpr ⟨_, hplain, hdecode⟩, UInt16.ofNat_toNat, rfl, h.parse⟩

/-- Of the first messages each is read as its packet. -/
theorem readsAs_of_prefix {outs : List Outgoing} (hfits : ∀ o ∈ outs, o.Fits env) {messages : List Bytes}
    (h : messages <+: outs.map (encrypted env)) :
    ∃ before after, outs = before ++ after ∧ messages = before.map (encrypted env) ∧
      List.Forall₂ (ReadsAs env) before messages := by
  obtain ⟨before, ⟨after, rfl⟩, rfl⟩ := List.prefix_map_iff.mp h
  refine ⟨before, after, rfl, rfl, ?_⟩
  rw [List.forall₂_map_right_iff, List.forall₂_same]
  exact fun o ho => (hfits o (List.mem_append_left _ ho)).readsAs

end Outgoing

namespace KcpLink

/-- **Packets arrive as they were sent**, in order and from the first on, whatever the
network does; and where the sender has nothing left to send and the receiver
nothing left to read, all of them. -/
theorem packets_in_order (env : Env) (conv token : UInt32) (acts : List KcpLinkAct) (outs : List Outgoing)
    (hs : ((start conv token).run acts).Short) (hmtu : Runs.AllSteps step Settled (start conv token) acts)
    (hfits : ∀ o ∈ outs, o.Fits env) (hsent : ((start conv token).run acts).a.accepted = outs.map (Outgoing.encrypted env)) :
    let link := (start conv token).run acts
    link.InBounds ∧ ∃ before after, outs = before ++ after ∧ List.Forall₂ (Outgoing.ReadsAs env) before link.b.received ∧
      (link.a.kcp.waitsnd = 0 → ikcpPeeksize link.b.kcp.toIkcpcb < 0 → after = []) := by
  intro link
  have h := run_peers conv token acts hs
  obtain ⟨-, ms, -, haccepted, -⟩ := h.forth.received h.left h.framedRight
  have hprefix : link.b.received <+: outs.map (Outgoing.encrypted env) := by
    rw [← hsent]
    exact ⟨ms, haccepted.symm⟩
  obtain ⟨before, after, rfl, hreceived, hreads⟩ := Outgoing.readsAs_of_prefix hfits hprefix
  refine ⟨run_inBounds conv token acts hs hmtu, before, after, rfl, hreads, fun hwait hpeek => ?_⟩
  have hall : link.b.received = link.a.accepted := h.all_received hs.1 hwait (headMessage_of_peeksize hpeek)
  have hlength := congrArg List.length (hreceived.symm.trans (hall.trans hsent))
  rw [List.length_map, List.length_map, List.length_append] at hlength
  exact List.eq_nil_of_length_eq_zero (by omega)

/-- Two packets under two keys. -/
def samplePackets : List Outgoing := [⟨0, [1, 2, 3], 5, 0, [7, 9]⟩, ⟨0, [4], 6, 0, [8]⟩]

/-- Both are sent, and the second datagram comes first. -/
def samplePacketRun : List KcpLinkAct :=
  [.callA (.nodelay 1 10 2 1) trivial, .callA (.update 0) trivial,
    .callA (.send (Outgoing.encrypted Env.sample ⟨0, [1, 2, 3], 5, 0, [7, 9]⟩) 15) (by decide), .callA .flush trivial,
    .callA (.send (Outgoing.encrypted Env.sample ⟨0, [4], 6, 0, [8]⟩) 13) (by decide), .callA .flush trivial,
    .toB 1, .toB 0, .callB (.recv 64) (by decide), .callB (.recv 64) (by decide)]

theorem packets_in_order_sample :
    let link := (start 5 6).run samplePacketRun
    link.b.received.length = 2 ∧ link.InBounds ∧ ∃ before after, samplePackets = before ++ after ∧
      List.Forall₂ (Outgoing.ReadsAs Env.sample) before link.b.received ∧
      (link.a.kcp.waitsnd = 0 → ikcpPeeksize link.b.kcp.toIkcpcb < 0 → after = []) :=
  ⟨by decide +kernel, packets_in_order Env.sample 5 6 samplePacketRun samplePackets
    ⟨by decide +kernel, by decide +kernel⟩
    ⟨trivial, trivial, trivial, trivial, trivial, trivial, trivial, trivial, trivial, trivial, trivial⟩
    (by
      intro o ho
      rcases List.mem_pair.mp ho with rfl | rfl
      · exact ⟨by decide, by decide, by decide, by decide⟩
      · exact ⟨by decide, by decide, by decide, by decide⟩)
    (by decide +kernel)⟩

end KcpLink

end EyPS
