/-
How much `Kcp::Recv` asks `ikcp_recv` to copy. A segment is bounded by the
datagram it came in, a message only by the number of its fragments, which
the peer chooses: the bound of `_recvBuf` holds exactly while no message of
several fragments is longer.
-/
import EyPS.Runs
import EyPS.Kcp

namespace EyPS

/-- What `async_receive_from` can put into the 65534 bytes of `packetBuffer`. -/
structure Received where
  bytes : Bytes
  size_le : bytes.length ≤ 65534

/-- What is done to the control block of a connected client. -/
inductive RecvAct
  /-- `ikcp_input` of a datagram -/
  | input (datagram : Received)
  /-- a call of `Kcp::Recv` -/
  | recv

/-- A step, and the size that a call of `ikcp_recv` was asked for. -/
def recvStep (cb : Ikcpcb) : RecvAct → Ikcpcb × List Int
  | .input datagram => ((ikcpInput cb datagram.bytes).2, [])
  | .recv =>
    match Kcp.recvSize cb with
    | none => (cb, [])
    | some sz => ((ikcpRecv cb sz).2.2, [sz])

/-- The control block `Initialize` creates. -/
def Ikcpcb.start (conv token : UInt32) : Ikcpcb := ikcpWndsize (ikcpCreate conv token) 4096

/-! ## A segment fits its datagram -/

/-- Every segment held is at most this long. -/
def Ikcpcb.Bounded (n : Nat) (cb : Ikcpcb) : Prop :=
  (∀ seg ∈ cb.rcvBuf, seg.data.length ≤ n) ∧ ∀ seg ∈ cb.rcvQueue, seg.data.length ≤ n

theorem Ikcpcb.Bounded.start (n : Nat) (conv token : UInt32) : (Ikcpcb.start conv token).Bounded n := by
  have hbuf : (Ikcpcb.start conv token).rcvBuf = [] := rfl
  have hqueue : (Ikcpcb.start conv token).rcvQueue = [] := rfl
  simp [Bounded, hbuf, hqueue]

theorem moveAvailable_mem {wnd : UInt32} {buf queue : List Seg} {nxt : UInt32} {P : Seg → Prop}
    (hb : ∀ seg ∈ buf, P seg) (hq : ∀ seg ∈ queue, P seg) :
    (∀ seg ∈ (moveAvailable wnd buf queue nxt).1, P seg) ∧
      ∀ seg ∈ (moveAvailable wnd buf queue nxt).2.1, P seg := by
  induction buf generalizing queue nxt with
  | nil => exact ⟨hb, hq⟩
  | cons seg buf ih =>
    obtain ⟨hseg, hbuf⟩ := List.forall_mem_cons.mp hb
    unfold moveAvailable
    split
    · refine ih hbuf fun x hx => ?_
      rcases List.mem_append.mp hx with hx | hx
      · exact hq x hx
      · obtain rfl := List.mem_singleton.mp hx
        exact hseg
    · exact ⟨hb, hq⟩

theorem Ikcpcb.Bounded.moved {n : Nat} {cb : Ikcpcb} (h : cb.Bounded n) : cb.moved.Bounded n :=
  moveAvailable_mem h.1 h.2

theorem mem_insertSeg {newseg seg : Seg} {l : List Seg} (h : seg ∈ insertSeg newseg l) :
    seg = newseg ∨ seg ∈ l := by
  induction l with
  | nil => exact .inl (List.mem_singleton.mp h)
  | cons s l ih =>
    unfold insertSeg at h
    split at h
    · exact .inr h
    split at h
    · exact List.mem_cons.mp h
    · rcases List.mem_cons.mp h with rfl | h
      · exact .inr List.mem_cons_self
      · rcases ih h with h | h
        · exact .inl h
        · exact .inr (List.mem_cons_of_mem s h)

theorem Ikcpcb.Bounded.push {n : Nat} {cb : Ikcpcb} (h : cb.Bounded n) {seg : Seg}
    (hs : seg.data.length ≤ n) : (ikcpPush cb seg).Bounded n := by
  unfold ikcpPush
  split
  next =>
    unfold ikcpParseData
    split
    next => exact h
    next =>
      refine moved ⟨fun x hx => ?_, h.2⟩
      rcases mem_insertSeg (List.mem_reverse.mp hx) with rfl | hx
      · exact hs
      · exact h.1 x (List.mem_reverse.mp hx)
  next => exact h

/-- A pass of the loop of `ikcp_input`: it stops, or pushes at most a segment
that leaves the header's bytes out, and goes on with what is left. -/
theorem Ikcpcb.Bounded.inputLoop {n : Nat} (fuel : Nat) {cb : Ikcpcb} (h : cb.Bounded n) {data : Bytes}
    (hd : data.length ≤ n + ikcpOverhead) : (ikcpInputLoop fuel cb data).2.Bounded n := by
  induction fuel generalizing cb data with
  | zero => exact h
  | succ fuel ih =>
    simp only [ikcpInputLoop, decode32u, decode8u, List.drop_drop]
    split
    next => exact h
    split
    next => exact h
    split
    next => exact h
    split
    next => exact h
    simp only [ikcpOverhead] at hd
    refine ih ?_ ?_
    · split
      next =>
        refine h.push ?_
        simp only [List.length_take, List.length_drop]
        omega
      next => exact h
    · simp only [List.length_drop, ikcpOverhead]
      omega

theorem Ikcpcb.Bounded.input {n : Nat} {cb : Ikcpcb} (h : cb.Bounded n) {data : Bytes}
    (hd : data.length ≤ n + ikcpOverhead) : (ikcpInput cb data).2.Bounded n := by
  unfold ikcpInput
  split
  next => exact h
  next => exact h.inputLoop _ hd

theorem mergeFragments_snd_subset (queue : List Seg) : ∀ seg ∈ (mergeFragments queue).2, seg ∈ queue := by
  intro seg h
  rw [← mergeFragments_snd queue]
  exact List.mem_append_right _ h

theorem Ikcpcb.Bounded.recv {n : Nat} {cb : Ikcpcb} (h : cb.Bounded n) (len : Int) :
    (ikcpRecv cb len).2.2.Bounded n := by
  unfold ikcpRecv
  split
  next => exact h
  split
  next => exact h
  split
  next => exact h
  refine Bounded.moved ?_
  split
  next => exact h
  next => exact ⟨h.1, fun seg hs => h.2 seg (mergeFragments_snd_subset _ seg hs)⟩

/-- No segment is longer than a datagram without a header. -/
def maxSegment : Nat := 65506

theorem recvStep_bounded {cb : Ikcpcb} (h : cb.Bounded maxSegment) (a : RecvAct) :
    (recvStep cb a).1.Bounded maxSegment := by
  cases a with
  | input datagram => exact h.input datagram.size_le
  | recv =>
    unfold recvStep
    cases hsz : Kcp.recvSize cb with
    | none => simpa [hsz] using h
    | some sz => simpa [hsz] using h.recv sz

/-! ## The size of a request -/

/-- The message at the head of the queue, complete and of several fragments, is
longer than `_recvBuf`. -/
def OverlongMessage (cb : Ikcpcb) : Prop :=
  ∃ seg rest message, cb.rcvQueue = seg :: rest ∧ seg.frg ≠ 0 ∧ headMessage cb.rcvQueue = some message ∧
    Kcp.recvBufSize < message.length

/-- What `Recv` asks for is the length of the head message, when there is one. -/
theorem recvSize_eq_some {cb : Ikcpcb} {sz : Int} (h : Kcp.recvSize cb = some sz) :
    ∃ message, headMessage cb.rcvQueue = some message ∧ sz = message.length := by
  unfold Kcp.recvSize at h
  rw [ikcpPeeksize_eq] at h
  cases hm : headMessage cb.rcvQueue with
  | none => simp [hm] at h
  | some message =>
    simp only [hm, Option.ite_none_right_eq_some, Option.some.injEq] at h
    exact ⟨message, rfl, h.2.symm⟩

theorem recvSize_of_headMessage {cb : Ikcpcb} {message : Bytes} (h : headMessage cb.rcvQueue = some message)
    (hne : message ≠ []) : Kcp.recvSize cb = some (message.length : Int) := by
  have hlen : 0 < message.length := List.length_pos_iff.mpr hne
  unfold Kcp.recvSize
  rw [ikcpPeeksize_eq, h]
  dsimp only
  rw [if_pos (by omega)]

/-- A message of one fragment is a segment. -/
theorem headMessage_unfragmented {seg : Seg} {rest : List Seg} (h : seg.frg = 0) :
    headMessage (seg :: rest) = some seg.data := by
  simp [headMessage, headFragments, h]

/-- `Recv` asks for too much exactly if the head message is overlong. -/
theorem recvSize_le_iff {cb : Ikcpcb} (hb : cb.Bounded maxSegment) :
    (∀ sz, Kcp.recvSize cb = some sz → sz ≤ Kcp.recvBufSize) ↔ ¬ OverlongMessage cb := by
  constructor
  · rintro h ⟨seg, rest, message, -, -, hm, hlong⟩
    have hne : message ≠ [] := by
      rintro rfl
      simp [Kcp.recvBufSize] at hlong
    have hsz := h _ (recvSize_of_headMessage hm hne)
    omega
  · intro h sz hsz
    obtain ⟨message, hm, rfl⟩ := recvSize_eq_some hsz
    by_contra hlong
    cases hq : cb.rcvQueue with
    | nil => exact absurd hq (ne_nil_of_headMessage hm)
    | cons seg rest =>
      by_cases h0 : seg.frg = 0
      · rw [hq, headMessage_unfragmented h0, Option.some.injEq] at hm
        have hseg : seg.data.length ≤ maxSegment := hb.2 seg (by rw [hq]; exact List.mem_cons_self)
        simp only [maxSegment, hm] at hseg
        simp only [Kcp.recvBufSize] at hlong
        omega
      · exact h ⟨seg, rest, message, hq, h0, hm, by omega⟩

theorem recvStep_log_iff {cb : Ikcpcb} (hb : cb.Bounded maxSegment) (a : RecvAct) :
    (∀ sz ∈ (recvStep cb a).2, sz ≤ Kcp.recvBufSize) ↔ (a = .recv → ¬ OverlongMessage cb) := by
  cases a with
  | input => simp [recvStep]
  | recv =>
    simp only [true_implies]
    rw [← recvSize_le_iff hb]
    cases hsz : Kcp.recvSize cb <;> simp [recvStep, hsz]

/-- **`Recv` asks for at most the 65534 bytes it has** exactly in the runs where
it is never called on an overlong message. -/
theorem recv_request_le_iff (conv token : UInt32) (acts : List RecvAct) :
    (∀ sz ∈ Runs.log recvStep (Ikcpcb.start conv token) acts, sz ≤ Kcp.recvBufSize) ↔
      Runs.AllSteps recvStep (fun cb a => a = .recv → ¬ OverlongMessage cb) (Ikcpcb.start conv token) acts := by
  rw [Runs.forall_log_iff]
  exact Runs.allSteps_congr (Ikcpcb.Bounded maxSegment) (fun _ a h => recvStep_bounded h a)
    (fun _ a h => recvStep_log_iff h a) (.start maxSegment conv token)

/-! ## A message of two fragments -/

/-- A datagram of one PUSH segment, its window, timestamp and `una` 0. -/
def pushDatagram (conv token : UInt32) (frg : UInt8) (sn : UInt32) (data : Bytes) : Bytes :=
  toLE 4 conv.toNat ++ (toLE 4 token.toNat ++ (ikcpCmdPush :: frg :: 0 :: 0 :: (toLE 4 0 ++
    (toLE 4 sn.toNat ++ (toLE 4 0 ++ (toLE 4 data.length ++ data))))))

@[simp] theorem pushDatagram_length (conv token frg sn data) :
    (pushDatagram conv token frg sn data).length = data.length + 28 := by
  simp [pushDatagram]
  omega

@[simp] theorem decode32u_toLE (n : Nat) (rest : Bytes) :
    decode32u (toLE 4 n ++ rest) = (UInt32.ofNat n, rest) := by
  have htake : (toLE 4 n ++ rest).take 4 = toLE 4 n := List.take_left' (toLE_length 4 n)
  have hdrop : (toLE 4 n ++ rest).drop 4 = rest := List.drop_left' (toLE_length 4 n)
  simp only [decode32u, htake, hdrop, fromLE_toLE, Prod.mk.injEq, and_true]
  rw [← UInt32.toNat_inj]
  simp

/-- The datagram of a segment is taken as that segment. -/
theorem ikcpInput_pushDatagram (cb : Ikcpcb) (frg : UInt8) (sn : UInt32) {data : Bytes}
    (hd : data.length < 2 ^ 31) :
    (ikcpInput cb (pushDatagram cb.conv cb.token frg sn data)).2 = ikcpPush cb ⟨frg.toNat, sn, data⟩ := by
  have hlen : ¬ (pushDatagram cb.conv cb.token frg sn data).length < ikcpOverhead := by simp [ikcpOverhead]
  have hdrop : ∀ rest : Bytes, (toLE 4 0 ++ rest).drop 4 = rest :=
    fun rest => List.drop_left' (toLE_length 4 0)
  have hsize : (UInt32.ofNat data.length).toNat = data.length := by
    rw [UInt32.toNat_ofNat']
    omega
  obtain ⟨fuel, hfuel⟩ : ∃ fuel, (pushDatagram cb.conv cb.token frg sn data).length = fuel + 1 :=
    ⟨data.length + 27, pushDatagram_length ..⟩
  unfold ikcpInput
  rw [if_neg hlen, hfuel, ikcpInputLoop, if_neg hlen]
  simp only [pushDatagram, decode32u_toLE, decode8u, UInt32.ofNat_toNat, List.headD_cons, List.drop_succ_cons,
    List.drop_zero, hdrop, hsize, ne_eq, not_true_eq_false, or_self, if_false, List.take_length,
    List.drop_length, false_and, if_true]
  rw [if_neg (by omega), ikcpInputLoop_short _ _ (by decide)]

/-- The next segment in order goes straight to the queue. -/
theorem ikcpPush_inOrder {cb : Ikcpcb} {seg : Seg} (hb : cb.rcvBuf = []) (hsn : seg.sn = cb.rcvNxt)
    (hw : itimediff cb.rcvNxt (cb.rcvNxt + cb.rcvWnd) < 0) (hq : cb.rcvQueue.length < cb.rcvWnd.toNat) :
    ikcpPush cb seg = { cb with rcvNxt := cb.rcvNxt + 1, rcvQueue := cb.rcvQueue ++ [seg] } := by
  have h0 : itimediff cb.rcvNxt cb.rcvNxt = 0 := by simp [itimediff]
  have hpush : itimediff seg.sn (cb.rcvNxt + cb.rcvWnd) < 0 ∧ 0 ≤ itimediff seg.sn cb.rcvNxt := by
    rw [hsn]
    omega
  have hkeep : ¬ (0 ≤ itimediff seg.sn (cb.rcvNxt + cb.rcvWnd) ∨ itimediff seg.sn cb.rcvNxt < 0) := by
    rw [hsn]
    omega
  rw [ikcpPush, if_pos hpush, ikcpParseData, if_neg hkeep]
  simp [Ikcpcb.moved, hb, insertSeg, moveAvailable, hsn, hq]

/-- A datagram of one segment, as `AsyncRec` receives it. -/
def Received.push (frg : UInt8) (sn : UInt32) (data : Bytes) (h : data.length ≤ 65506) : Received where
  bytes := pushDatagram 0 0 frg sn data
  size_le := by
    rw [pushDatagram_length]
    omega

theorem recvStep_push {cb : Ikcpcb} (hconv : cb.conv = 0) (htoken : cb.token = 0) {frg : UInt8} {sn : UInt32}
    {data : Bytes} (h : data.length ≤ 65506) :
    (recvStep cb (.input (.push frg sn data h))).1 = ikcpPush cb ⟨frg.toNat, sn, data⟩ := by
  have hpush := ikcpInput_pushDatagram cb frg sn (show data.length < 2 ^ 31 by omega)
  rw [hconv, htoken] at hpush
  exact hpush

/-- Of a message in two fragments `Recv` asks for both. -/
theorem recv_two_fragments (data data' : Bytes) (h : data.length ≤ 65506) (h' : data'.length ≤ 65506)
    (hne : data ≠ []) :
    Runs.log recvStep (Ikcpcb.start 0 0) [.input (.push 1 0 data h), .input (.push 0 1 data' h'), .recv] =
      [((data.length + data'.length : Nat) : Int)] := by
  let cb : Ikcpcb := { Ikcpcb.start 0 0 with rcvNxt := 1, rcvQueue := [⟨1, 0, data⟩] }
  let cb' : Ikcpcb := { cb with rcvNxt := 2, rcvQueue := [⟨1, 0, data⟩, ⟨0, 1, data'⟩] }
  have hfirst : (recvStep (Ikcpcb.start 0 0) (.input (.push 1 0 data h))).1 = cb := by
    rw [recvStep_push rfl rfl h]
    exact ikcpPush_inOrder rfl rfl (by decide) (by decide)
  have hsecond : (recvStep cb (.input (.push 0 1 data' h'))).1 = cb' := by
    rw [recvStep_push rfl rfl h']
    exact ikcpPush_inOrder rfl rfl (show itimediff 1 (1 + 4096) < 0 by decide) (show 1 < 4096 by decide)
  have hhead : headMessage cb'.rcvQueue = some (data ++ data') := by
    simp [cb', headMessage, headFragments]
  have hsize : Kcp.recvSize cb' = some ((data.length + data'.length : Nat) : Int) := by
    rw [← List.length_append]
    exact recvSize_of_headMessage hhead (by simp [hne])
  have hinput : ∀ cb d, (recvStep cb (.input d)).2 = [] := fun _ _ => rfl
  simp only [Runs.log_cons, Runs.log_nil, hinput, hfirst, hsecond, List.nil_append, List.append_nil]
  simp only [recvStep, hsize]

/-- The data of a fragment that fits a datagram. -/
def fragmentData : Bytes := List.replicate 40000 0

theorem fragmentData_length : fragmentData.length = 40000 := List.length_replicate

theorem fragmentData_le : fragmentData.length ≤ 65506 := by
  rw [fragmentData_length]
  omega

/-- Two fragments of 40000 bytes: `Recv` asks for 80000 bytes. -/
theorem recv_overlong_message :
    ∃ sz ∈ Runs.log recvStep (Ikcpcb.start 0 0) [.input (.push 1 0 fragmentData fragmentData_le),
      .input (.push 0 1 fragmentData fragmentData_le), .recv], (Kcp.recvBufSize : Int) < sz := by
  have hlen := fragmentData_length
  have hne : fragmentData ≠ [] := List.length_pos_iff.mp (by omega)
  rw [recv_two_fragments _ _ fragmentData_le fragmentData_le hne]
  refine ⟨_, List.mem_singleton_self _, ?_⟩
  simp only [hlen, Kcp.recvBufSize]
  omega

end EyPS
