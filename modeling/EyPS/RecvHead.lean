/-
What one call of `Recv` takes out of the receive queue. `ikcp_recv` takes
out a complete head message whatever its length, but `Recv` asks it only for
a positive length: a complete message of no bytes stays at the head, every
later call finds it there, and nothing behind it is reached.
-/
import EyPS.Drain

namespace EyPS

/-! ## What a call should do -/

/-- `cb'` is `cb` without its head message, and with the segments that `rcv_buf`
had in order moved to the end of the queue. -/
def HeadTaken (cb cb' : Ikcpcb) : Prop :=
  ∃ rest moved buf, cb.rcvQueue = headFragments cb.rcvQueue ++ rest ∧ cb.rcvBuf = moved ++ buf ∧
    cb' = { cb with
      rcvNxt := cb.rcvNxt + UInt32.ofNat moved.length
      rcvBuf := buf
      rcvQueue := rest ++ moved }

/-- A call returns the head message and takes out that message and no other;
without a complete one it returns nothing and changes nothing. -/
def ConsumesHead (k : Kcp) (cb : Ikcpcb) : Prop :=
  match headMessage cb.rcvQueue with
  | none => k.recv = .ok ([], k)
  | some m => ∃ cb', k.recv = .ok (m, { k with kcp := some cb' }) ∧ HeadTaken cb cb'

/-- A call of `Recv`, and what it returned. -/
def recvCall (k : Kcp) (_ : Unit) : Kcp × List (Except Err Bytes) :=
  match k.recv with
  | .error e => (k, [.error e])
  | .ok (data, k) => (k, [.ok data])

def calls (n : Nat) : List Unit := List.replicate n ()

/-- `n` calls return the first `n` complete messages, one each, and leave the others. -/
def ReachesMessages (n : Nat) (k : Kcp) (cb : Ikcpcb) : Prop :=
  Runs.log recvCall k (calls n) = (cb.messages.take n).map .ok ∧
    ∃ cb', (Runs.final recvCall k (calls n)).kcp = some cb' ∧ cb'.messages = cb.messages.drop n

/-! ## Which messages are complete -/

/-- The fragments of a message as `ikcp_send` numbers them: down to 0. -/
def CountsDown : List Seg → Prop
  | [] => True
  | seg :: rest => seg.frg = rest.length ∧ CountsDown rest

theorem headFragments_countsDown {frags : List Seg} (h : CountsDown frags) (hne : frags ≠ [])
    (rest : List Seg) :
    headFragments (frags ++ rest) = frags := by
  induction frags with
  | nil => exact absurd rfl hne
  | cons seg frags ih =>
    obtain ⟨hfrg, h⟩ := h
    rw [List.cons_append, headFragments]
    by_cases hlast : frags = []
    · subst hlast
      rw [if_pos (show seg.frg = 0 from hfrg)]
    · have hpos := List.length_pos_iff.mpr hlast
      rw [if_neg (by omega), ih h hlast]

/-- All of a message's fragments at the head: the message is the head message. -/
theorem headMessage_countsDown {frags : List Seg} (h : CountsDown frags) (hne : frags ≠ [])
    (rest : List Seg) :
    headMessage (frags ++ rest) = some (frags.flatMap Seg.data) := by
  have hfrags := headFragments_countsDown h hne rest
  cases frags with
  | nil => exact absurd rfl hne
  | cons seg frags =>
    have hfrg : seg.frg = frags.length := h.1
    rw [List.cons_append] at hfrags ⊢
    rw [headMessage, hfrags, if_neg]
    rw [List.length_append]
    omega

/-! ## What a call does -/

theorem moveAvailable_moves (wnd : UInt32) (buf queue : List Seg) (nxt : UInt32) :
    ∃ moved buf', buf = moved ++ buf' ∧
      moveAvailable wnd buf queue nxt = (buf', queue ++ moved, nxt + UInt32.ofNat moved.length) := by
  induction buf generalizing queue nxt with
  | nil => exact ⟨[], [], rfl, by simp [moveAvailable]⟩
  | cons seg buf ih =>
    unfold moveAvailable
    split
    · obtain ⟨moved, buf', hbuf, hmove⟩ := ih (queue ++ [seg]) (nxt + 1)
      refine ⟨seg :: moved, buf', by rw [hbuf]; rfl, ?_⟩
      have hnxt : nxt + 1 + UInt32.ofNat moved.length = nxt + UInt32.ofNat (moved.length + 1) := by
        rw [UInt32.ofNat_add, UInt32.add_assoc, UInt32.add_comm 1]
        rfl
      rw [hmove, hnxt]
      simp
    · exact ⟨[], seg :: buf, rfl, by simp⟩

theorem headTaken_taken (cb : Ikcpcb) : HeadTaken cb cb.taken := by
  obtain ⟨moved, buf, hbuf, hmove⟩ :=
    moveAvailable_moves cb.rcvWnd cb.rcvBuf (mergeFragments cb.rcvQueue).2 cb.rcvNxt
  refine ⟨(mergeFragments cb.rcvQueue).2, moved, buf, (mergeFragments_snd _).symm, hbuf, ?_⟩
  simp only [Ikcpcb.taken, Ikcpcb.moved, hmove]

/-- Nothing left out of the queue is the whole of it. -/
theorem not_headTaken_self {cb : Ikcpcb} (h : cb.rcvQueue ≠ []) : ¬ HeadTaken cb cb := by
  rintro ⟨rest, moved, buf, hqueue, hbuf, hcb⟩
  have hbuf' : cb.rcvBuf.length = buf.length := congrArg (fun cb => cb.rcvBuf.length) hcb
  have hqueue' : cb.rcvQueue.length = (rest ++ moved).length := congrArg (fun cb => cb.rcvQueue.length) hcb
  have hsplit := congrArg List.length hqueue
  have hhead := headFragments_length_pos h
  rw [hbuf, List.length_append] at hbuf'
  rw [List.length_append] at hqueue' hsplit
  omega

section Calls

variable {k : Kcp} {cb : Ikcpcb}

theorem recv_fits {m : Bytes} (hk : k.kcp = some cb) (h : headMessage cb.rcvQueue = some m) (hm : m ≠ [])
    (hfit : m.length ≤ Kcp.recvBufSize) : k.recv = .ok (m, { k with kcp := some cb.taken }) := by
  rw [recv_some hk h hm, if_neg (by omega)]

theorem consumesHead_iff (hk : k.kcp = some cb)
    (hfit : ∀ m, headMessage cb.rcvQueue = some m → m.length ≤ Kcp.recvBufSize) :
    ConsumesHead k cb ↔ headMessage cb.rcvQueue ≠ some [] := by
  unfold ConsumesHead
  cases hm : headMessage cb.rcvQueue with
  | none => simp [recv_none hk hm]
  | some m =>
    by_cases hempty : m = []
    · subst hempty
      simp only [ne_eq, not_true_eq_false, iff_false]
      rintro ⟨cb', hrecv, htaken⟩
      -- the call leaves the object as it was
      rw [recv_empty hk hm] at hrecv
      simp only [Except.ok.injEq, Prod.mk.injEq, true_and] at hrecv
      have hcb := congrArg Kcp.kcp hrecv
      rw [hk] at hcb
      cases hcb
      exact not_headTaken_self (ne_nil_of_headMessage hm) htaken
    · simp only [ne_eq, Option.some.injEq, hempty, not_false_eq_true, iff_true]
      exact ⟨cb.taken, recv_fits hk hm hempty (hfit m hm), headTaken_taken cb⟩

/-- An empty message at the head is what every call returns. -/
theorem calls_of_empty (hk : k.kcp = some cb) (h : headMessage cb.rcvQueue = some []) (n : Nat) :
    Runs.final recvCall k (calls n) = k ∧ Runs.log recvCall k (calls n) = List.replicate n (.ok []) := by
  have hcall : recvCall k () = (k, [.ok []]) := by rw [recvCall, recv_empty hk h]
  induction n with
  | zero => exact ⟨rfl, rfl⟩
  | succ n ih =>
    rw [calls, List.replicate_succ, Runs.final_cons, Runs.log_cons, hcall]
    refine ⟨ih.1, ?_⟩
    show [.ok []] ++ Runs.log recvCall k (calls n) = _
    rw [ih.2]
    rfl

theorem reachesMessages_succ {m : Bytes} (hk : k.kcp = some cb) (h : headMessage cb.rcvQueue = some m)
    (hm : m ≠ []) (hfit : m.length ≤ Kcp.recvBufSize) (n : Nat) :
    ReachesMessages (n + 1) k cb ↔ ReachesMessages n { k with kcp := some cb.taken } cb.taken := by
  have hcall : recvCall k () = ({ k with kcp := some cb.taken }, [.ok m]) := by
    rw [recvCall, recv_fits hk h hm hfit]
  unfold ReachesMessages
  rw [calls, List.replicate_succ, Runs.final_cons, Runs.log_cons, hcall, messages_of_some h]
  simp [calls]

theorem reachesMessages_iff {n : Nat} (hk : k.kcp = some cb) (hn : n ≤ cb.messages.length)
    (hfit : ∀ m ∈ cb.messages.take n, m.length ≤ Kcp.recvBufSize) :
    ReachesMessages n k cb ↔ [] ∉ cb.messages.take n := by
  induction n generalizing k cb with
  | zero => simp [ReachesMessages, calls, hk]
  | succ n ih =>
    cases hm : headMessage cb.rcvQueue with
    | none =>
      rw [messages_of_none hm] at hn
      simp at hn
    | some m =>
      have hcons := messages_of_some hm
      by_cases hempty : m = []
      · subst hempty
        simp only [hcons, List.take_succ_cons, List.mem_cons, true_or, not_true_eq_false, iff_false]
        rintro ⟨-, cb', hcb, hmessages⟩
        rw [(calls_of_empty hk hm _).1, hk] at hcb
        cases hcb
        have hlen := congrArg List.length hmessages
        rw [List.length_drop] at hlen
        omega
      · rw [hcons, List.take_succ_cons] at hfit
        rw [hcons, List.length_cons] at hn
        obtain ⟨hhead, htail⟩ := List.forall_mem_cons.mp hfit
        have ih := @ih { k with kcp := some cb.taken } cb.taken rfl (by omega) htail
        rw [reachesMessages_succ hk hm hempty hhead, ih, hcons, List.take_succ_cons, List.mem_cons]
        simp [Ne.symm hempty]

end Calls

/-- **`Recv` takes out the head message** exactly where that is not a message of no
bytes, and calls of it reach the messages of a queue exactly up to the first such. -/
theorem recv_consumes_iff (k : Kcp) (cb : Ikcpcb) (hk : k.kcp = some cb) :
    ((∀ m, headMessage cb.rcvQueue = some m → m.length ≤ Kcp.recvBufSize) →
      (ConsumesHead k cb ↔ headMessage cb.rcvQueue ≠ some [])) ∧
    ∀ n ≤ cb.messages.length, (∀ m ∈ cb.messages.take n, m.length ≤ Kcp.recvBufSize) →
      (ReachesMessages n k cb ↔ [] ∉ cb.messages.take n) :=
  ⟨consumesHead_iff hk, fun _ => reachesMessages_iff hk⟩

theorem recv_consumes_sample :
    let cb : Ikcpcb := ⟨0, 0, 3, 128, [], [⟨1, 0, [1]⟩, ⟨0, 1, [2]⟩, ⟨0, 2, [3]⟩]⟩
    let k : Kcp := { Kcp.new ⟨0, 0⟩ with kcp := some cb }
    ConsumesHead k cb ∧ ReachesMessages 2 k cb := by
  intro cb k
  have h := recv_consumes_iff k cb rfl
  exact ⟨(h.1 (by decide)).mpr (by decide), (h.2 2 (by decide) (by decide)).mpr (by decide)⟩

/-- A client after two datagrams, an empty message and one of a byte. -/
def emptyThenByte : Except Err (Int × Kcp × Option Bytes) :=
  let P := Env.sample.platform
  let k := Kcp.accepted P ⟨0, 0⟩ 0
  (k.input P 0 true (pushDatagram k.conv k.token 0 0 [])).bind fun r =>
    r.2.1.input P 0 true (pushDatagram k.conv k.token 0 1 [7])

/-- The byte never arrives, however often `Recv` is called. -/
theorem empty_message_stays :
    ∃ k cb, (emptyThenByte.toOption.map fun r => r.2.1) = some k ∧ k.kcp = some cb ∧
      headMessage cb.rcvQueue = some [] ∧ cb.messages = [[], [7]] ∧
      ¬ ConsumesHead k cb ∧ ¬ ReachesMessages 2 k cb ∧
      ∀ n, Except.ok [7] ∉ Runs.log recvCall k (calls n) := by
  let cb : Ikcpcb :=
    { Ikcpcb.start 0 0xFFCCEEBB with rcvNxt := 2, rcvQueue := [⟨0, 0, []⟩, ⟨0, 1, [7]⟩] }
  let k : Kcp := { Kcp.accepted ⟨64, 64, .inr rfl, .inr rfl⟩ ⟨0, 0⟩ 0 with kcp := some cb }
  have hk : k.kcp = some cb := rfl
  have hm : headMessage cb.rcvQueue = some [] := rfl
  have hmessages : cb.messages = [[], [7]] := by decide
  refine ⟨k, cb, by decide +kernel, hk, hm, hmessages, ?_, ?_, fun n hmem => ?_⟩
  · rw [consumesHead_iff hk (by decide)]
    exact fun h => h hm
  · rw [reachesMessages_iff hk (by decide) (by decide)]
    exact fun h => h (by decide)
  · rw [(calls_of_empty hk hm n).2] at hmem
    cases (List.mem_replicate.mp hmem).2

end EyPS
