/-
What `ikcp_input` does to each part of the control block, and what it makes of a datagram
that `ikcp_flush` put together: exactly the segments that were put into it, in order.
-/
import EyPS.KcpFlush
import EyPS.RecvBuffer

namespace EyPS

namespace Kcpcb

/-! ## One segment -/

theorem updateAck_eq (kcp : Kcpcb) (rtt : Int32) :
    ∃ srtt rttval rto, kcp.updateAck rtt = { kcp with rxSrtt := srtt, rxRttval := rttval, rxRto := rto } := by
  unfold updateAck
  split <;> exact ⟨_, _, _, rfl⟩

/-- An acknowledgement changes the estimates, and takes its segment out of `snd_buf`. -/
theorem onAck_eq (kcp : Kcpcb) (sn ts : UInt32) :
    ∃ srtt rttval rto, kcp.onAck sn ts =
      ({ kcp with rxSrtt := srtt, rxRttval := rttval, rxRto := rto }.parseAck sn).shrinkBuf := by
  unfold onAck
  split
  · obtain ⟨srtt, rttval, rto, h⟩ := kcp.updateAck_eq (Int32.ofInt (itimediff kcp.current ts))
    exact ⟨srtt, rttval, rto, by rw [h]⟩
  · exact ⟨_, _, _, rfl⟩

/-- The numbers a PUSH adds to `acklist`: its own, left of the window's end. -/
def pushAcks (kcp : Kcpcb) (sn ts : UInt32) : List (UInt32 × UInt32) :=
  if itimediff sn (kcp.rcvNxt + kcp.rcvWnd) < 0 then [(sn, ts)] else []

/-- A PUSH changes the receive side, as `ikcpPush` does, and `acklist`. -/
theorem onPush_eq (kcp : Kcpcb) (ts : UInt32) (seg : Seg) :
    kcp.onPush ts seg =
      { kcp with toIkcpcb := ikcpPush kcp.toIkcpcb seg, acklist := kcp.acklist ++ kcp.pushAcks seg.sn ts } := by
  unfold onPush ikcpPush pushAcks
  by_cases hw : itimediff seg.sn (kcp.rcvNxt + kcp.rcvWnd) < 0
  · by_cases hn : 0 ≤ itimediff seg.sn kcp.rcvNxt
    · simp [hw, hn, ackPush]
    · simp [hw, hn, ackPush]
  · simp [hw]

/-- The three things a segment can do. -/
theorem inputSeg_cases (kcp : Kcpcb) (head : SegHeader) (data : Bytes) :
    (head.cmd = ikcpCmdAck ∧ ∃ srtt rttval rto, kcp.inputSeg head data =
      ({ kcp.takeHeader head with rxSrtt := srtt, rxRttval := rttval, rxRto := rto }.parseAck head.sn).shrinkBuf) ∨
    (head.cmd = ikcpCmdPush ∧ kcp.inputSeg head data = { kcp.takeHeader head with
      toIkcpcb := ikcpPush kcp.toIkcpcb ⟨head.frg.toNat, head.sn, data⟩
      acklist := kcp.acklist ++ kcp.pushAcks head.sn head.ts }) ∨
    (head.cmd ≠ ikcpCmdAck ∧ head.cmd ≠ ikcpCmdPush ∧ ∃ probe, kcp.inputSeg head data =
      { kcp.takeHeader head with probe }) := by
  unfold inputSeg
  by_cases hack : head.cmd = ikcpCmdAck
  · left
    rw [if_pos hack]
    exact ⟨hack, onAck_eq _ _ _⟩
  by_cases hpush : head.cmd = ikcpCmdPush
  · right; left
    rw [if_neg hack, if_pos hpush, onPush_eq]
    exact ⟨hpush, rfl⟩
  · right; right
    rw [if_neg hack, if_neg hpush]
    refine ⟨hack, hpush, ?_⟩
    split <;> exact ⟨_, rfl⟩

theorem parseAck_eq (kcp : Kcpcb) (sn : UInt32) :
    ∃ buf, kcp.parseAck sn = { kcp with sndBuf := buf } ∧ (buf = kcp.sndBuf ∨ buf = removeAcked sn kcp.sndBuf) := by
  unfold parseAck
  split
  · exact ⟨_, rfl, .inl rfl⟩
  · exact ⟨_, rfl, .inr rfl⟩

/-- The receive side sees the PUSH segments, and nothing else. -/
theorem inputSeg_rcv (kcp : Kcpcb) (head : SegHeader) (data : Bytes) :
    (kcp.inputSeg head data).toIkcpcb =
      if head.cmd = ikcpCmdPush then ikcpPush kcp.toIkcpcb ⟨head.frg.toNat, head.sn, data⟩ else kcp.toIkcpcb := by
  rcases kcp.inputSeg_cases head data with ⟨hack, srtt, rttval, rto, h⟩ | ⟨hpush, h⟩ | ⟨-, hpush, probe, h⟩
  · obtain ⟨buf, hbuf, -⟩ := parseAck_eq
      { kcp.takeHeader head with rxSrtt := srtt, rxRttval := rttval, rxRto := rto } head.sn
    have hpush : head.cmd ≠ ikcpCmdPush := by rw [hack]; decide
    rw [h, hbuf, if_neg hpush]
    rfl
  · rw [h, if_pos hpush]
  · rw [h, if_neg hpush]
    rfl

theorem inputSeg_acklist (kcp : Kcpcb) (head : SegHeader) (data : Bytes) :
    (kcp.inputSeg head data).acklist =
      kcp.acklist ++ if head.cmd = ikcpCmdPush then kcp.pushAcks head.sn head.ts else [] := by
  rcases kcp.inputSeg_cases head data with ⟨hack, srtt, rttval, rto, h⟩ | ⟨hpush, h⟩ | ⟨-, hpush, probe, h⟩
  · obtain ⟨buf, hbuf, -⟩ := parseAck_eq
      { kcp.takeHeader head with rxSrtt := srtt, rxRttval := rttval, rxRto := rto } head.sn
    have hpush : head.cmd ≠ ikcpCmdPush := by rw [hack]; decide
    rw [h, hbuf, if_neg hpush, List.append_nil]
    rfl
  · rw [h, if_pos hpush]
  · rw [h, if_neg hpush, List.append_nil]
    rfl

/-! ## The receive side of the whole control block -/

theorem growCwnd_eq (kcp : Kcpcb) : ∃ cwnd incr, kcp.growCwnd = { kcp with cwnd := cwnd, incr := incr } := by
  have hstep : ∃ cwnd incr, kcp.stepCwnd = { kcp with cwnd := cwnd, incr := incr } := by
    unfold stepCwnd
    split <;> exact ⟨_, _, rfl⟩
  obtain ⟨cwnd, incr, h⟩ := hstep
  unfold growCwnd
  rw [h]
  split
  · dsimp only
    split <;> exact ⟨_, _, rfl⟩
  · exact ⟨_, _, rfl⟩

theorem afterInput_eq (kcp : Kcpcb) (prevUna : UInt32) (maxack : Option UInt32) :
    ∃ buf cwnd incr, kcp.afterInput prevUna maxack = { kcp with sndBuf := buf, cwnd := cwnd, incr := incr } ∧
      (buf = kcp.sndBuf ∨ ∃ sn, buf = countFastack sn kcp.sndBuf) := by
  have hfast : ∀ sn, ∃ buf, kcp.parseFastack sn = { kcp with sndBuf := buf } ∧
      (buf = kcp.sndBuf ∨ ∃ sn, buf = countFastack sn kcp.sndBuf) := by
    intro sn
    unfold parseFastack
    split
    · exact ⟨_, rfl, .inl rfl⟩
    · exact ⟨_, rfl, .inr ⟨sn, rfl⟩⟩
  unfold afterInput
  cases maxack with
  | none =>
    dsimp only
    split
    · obtain ⟨cwnd, incr, h⟩ := kcp.growCwnd_eq
      exact ⟨_, cwnd, incr, h, .inl rfl⟩
    · exact ⟨_, _, _, rfl, .inl rfl⟩
  | some sn =>
    obtain ⟨buf, hbuf, hcases⟩ := hfast sn
    dsimp only
    rw [hbuf]
    split
    · obtain ⟨cwnd, incr, h⟩ := growCwnd_eq { kcp with sndBuf := buf }
      exact ⟨buf, cwnd, incr, h, hcases⟩
    · exact ⟨buf, _, _, rfl, hcases⟩

theorem ikcpPush_ids (cb : Ikcpcb) (seg : Seg) :
    (ikcpPush cb seg).conv = cb.conv ∧ (ikcpPush cb seg).token = cb.token := by
  unfold ikcpPush
  split
  · unfold ikcpParseData
    split <;> exact ⟨rfl, rfl⟩
  · exact ⟨rfl, rfl⟩

/-- A pass of the loop that only reads the receive side, by the header it decodes. -/
theorem ikcpInputLoop_succ (fuel : Nat) (cb : Ikcpcb) {data : Bytes} (h : ¬ data.length < ikcpOverhead) :
    ikcpInputLoop (fuel + 1) cb data =
      let head := (decodeHeader data).1
      let rest := (decodeHeader data).2
      if head.conv ≠ cb.conv ∨ head.token ≠ cb.token then (-1, cb)
      else if rest.length < head.len.toNat ∨ 2 ^ 31 ≤ head.len.toNat then (-2, cb)
      else if head.cmd ≠ ikcpCmdPush ∧ head.cmd ≠ ikcpCmdAck ∧ head.cmd ≠ ikcpCmdWask ∧
          head.cmd ≠ ikcpCmdWins then (-3, cb)
      else
        ikcpInputLoop fuel
          (if head.cmd = ikcpCmdPush then ikcpPush cb ⟨head.frg.toNat, head.sn, rest.take head.len.toNat⟩ else cb)
          (rest.drop head.len.toNat) := by
  rw [ikcpInputLoop, if_neg h]
  rfl

theorem inputLoop_succ (fuel : Nat) (kcp : Kcpcb) (maxack : Option UInt32) {data : Bytes}
    (h : ¬ data.length < ikcpOverhead) :
    inputLoop (fuel + 1) kcp maxack data =
      let head := (decodeHeader data).1
      let rest := (decodeHeader data).2
      if head.conv ≠ kcp.conv ∨ head.token ≠ kcp.token then (-1, kcp, maxack)
      else if rest.length < head.len.toNat ∨ 2 ^ 31 ≤ head.len.toNat then (-2, kcp, maxack)
      else if head.cmd ≠ ikcpCmdPush ∧ head.cmd ≠ ikcpCmdAck ∧ head.cmd ≠ ikcpCmdWask ∧
          head.cmd ≠ ikcpCmdWins then (-3, kcp, maxack)
      else
        inputLoop fuel (kcp.inputSeg head (rest.take head.len.toNat)) (maxAck maxack head)
          (rest.drop head.len.toNat) := by
  rw [inputLoop, if_neg h]

/-- What every segment keeps, the loop keeps, whatever the datagram. -/
theorem inputLoop_induct {P : Kcpcb → Prop} (hseg : ∀ kcp head data, P kcp → P (kcp.inputSeg head data))
    (fuel : Nat) {kcp : Kcpcb} (maxack : Option UInt32) (data : Bytes) (h : P kcp) :
    P (inputLoop fuel kcp maxack data).2.1 := by
  induction fuel generalizing kcp maxack data with
  | zero => exact h
  | succ fuel ih =>
    by_cases hd : data.length < ikcpOverhead
    · rw [inputLoop, if_pos hd]
      exact h
    · rw [inputLoop_succ _ _ _ hd]
      dsimp only
      split
      · exact h
      split
      · exact h
      split
      · exact h
      · exact ih _ _ (hseg _ _ _ h)

/-- What every segment and the end of the call keep, `ikcp_input` keeps. -/
theorem input_induct {P : Kcpcb → Prop} (hseg : ∀ kcp head data, P kcp → P (kcp.inputSeg head data))
    (hafter : ∀ kcp una maxack, P kcp → P (afterInput kcp una maxack)) {kcp : Kcpcb} (data : Bytes) (h : P kcp) :
    P (kcp.input data).2 := by
  have hloop := inputLoop_induct hseg data.length none data h
  unfold input
  split
  · exact h
  · dsimp only
    split
    · exact hloop
    · exact hafter _ _ _ hloop

theorem inputLoop_rcv (fuel : Nat) (kcp : Kcpcb) (maxack : Option UInt32) (data : Bytes) :
    (inputLoop fuel kcp maxack data).1 = (ikcpInputLoop fuel kcp.toIkcpcb data).1 ∧
      (inputLoop fuel kcp maxack data).2.1.toIkcpcb = (ikcpInputLoop fuel kcp.toIkcpcb data).2 := by
  induction fuel generalizing kcp maxack data with
  | zero => exact ⟨rfl, rfl⟩
  | succ fuel ih =>
    by_cases hd : data.length < ikcpOverhead
    · rw [ikcpInputLoop, inputLoop, if_pos hd, if_pos hd]
      exact ⟨rfl, rfl⟩
    · rw [ikcpInputLoop_succ _ _ hd, inputLoop_succ _ _ _ hd]
      generalize (decodeHeader data).1 = head
      generalize (decodeHeader data).2 = rest
      dsimp only
      by_cases hids : head.conv ≠ kcp.conv ∨ head.token ≠ kcp.token
      · rw [if_pos hids, if_pos hids]
        exact ⟨rfl, rfl⟩
      by_cases hlen : rest.length < head.len.toNat ∨ 2 ^ 31 ≤ head.len.toNat
      · rw [if_neg hids, if_neg hids, if_pos hlen, if_pos hlen]
        exact ⟨rfl, rfl⟩
      by_cases hcmd : head.cmd ≠ ikcpCmdPush ∧ head.cmd ≠ ikcpCmdAck ∧ head.cmd ≠ ikcpCmdWask ∧
          head.cmd ≠ ikcpCmdWins
      · rw [if_neg hids, if_neg hids, if_neg hlen, if_neg hlen, if_pos hcmd, if_pos hcmd]
        exact ⟨rfl, rfl⟩
      · rw [if_neg hids, if_neg hids, if_neg hlen, if_neg hlen, if_neg hcmd, if_neg hcmd, ← inputSeg_rcv]
        exact ih _ _ _

/-- On every datagram the whole control block answers as its receive side alone does, and leaves it
the same. -/
theorem input_rcv (kcp : Kcpcb) (data : Bytes) :
    (kcp.input data).1 = (ikcpInput kcp.toIkcpcb data).1 ∧
      (kcp.input data).2.toIkcpcb = (ikcpInput kcp.toIkcpcb data).2 := by
  unfold input ikcpInput
  split
  · exact ⟨rfl, rfl⟩
  · obtain ⟨hret, hrcv⟩ := inputLoop_rcv data.length kcp none data
    dsimp only
    split
    · exact ⟨hret, hrcv⟩
    · obtain ⟨buf, cwnd, incr, h, -⟩ := afterInput_eq (inputLoop data.length kcp none data).2.1 kcp.sndUna
        (inputLoop data.length kcp none data).2.2
      rw [h]
      exact ⟨hret, hrcv⟩

theorem recv_rcv (kcp : Kcpcb) (len : Int) :
    (kcp.recv len).1 = (ikcpRecv kcp.toIkcpcb len).1 ∧ (kcp.recv len).2.1 = (ikcpRecv kcp.toIkcpcb len).2.1 ∧
      (kcp.recv len).2.2.toIkcpcb = (ikcpRecv kcp.toIkcpcb len).2.2 := by
  have hneg : (ikcpRecv kcp.toIkcpcb len).1 < 0 → (ikcpRecv kcp.toIkcpcb len).2.2 = kcp.toIkcpcb := by
    unfold ikcpRecv
    split
    · exact fun _ => rfl
    split
    · exact fun _ => rfl
    split
    · exact fun _ => rfl
    · intro h
      dsimp only at h
      omega
  unfold recv
  dsimp only
  split
  next h => exact ⟨rfl, rfl, (hneg h).symm⟩
  · split <;> exact ⟨rfl, rfl, rfl⟩

end Kcpcb

/-! ## What the flushed segments look like -/

/-- The header `ikcp_encode_seg` writes. -/
def IkcpSeg.head (seg : IkcpSeg) : Kcpcb.SegHeader :=
  ⟨seg.conv, seg.token, seg.cmd, UInt8.ofNat seg.frg, seg.wnd.toUInt16, seg.ts, seg.sn, seg.una,
    UInt32.ofNat seg.data.length⟩

/-- A segment on the wire. -/
def IkcpSeg.bytes (seg : IkcpSeg) : Bytes := ikcpEncodeSeg seg ++ seg.data

/-- Segments on the wire, one after the other. -/
def datagram (segs : List IkcpSeg) : Bytes := segs.flatMap IkcpSeg.bytes

@[simp] theorem datagram_nil : datagram [] = [] := rfl
@[simp] theorem datagram_cons (seg segs) : datagram (seg :: segs) = seg.bytes ++ datagram segs := rfl
@[simp] theorem datagram_append (segs segs') : datagram (segs ++ segs') = datagram segs ++ datagram segs' :=
  List.flatMap_append

@[simp] theorem ikcpEncodeSeg_length (seg : IkcpSeg) : (ikcpEncodeSeg seg).length = ikcpOverhead := by
  simp [ikcpEncodeSeg, encode32u, encode16u, encode8u, ikcpOverhead]

theorem IkcpSeg.bytes_length (seg : IkcpSeg) : seg.bytes.length = ikcpOverhead + seg.data.length := by
  rw [IkcpSeg.bytes, List.length_append, ikcpEncodeSeg_length]

theorem decode32u_encode32u (l : UInt32) (rest : Bytes) : decode32u (encode32u l ++ rest) = (l, rest) := by
  rw [encode32u, decode32u_toLE, UInt32.ofNat_toNat]

theorem decode16u_encode16u (w : UInt16) (rest : Bytes) : Kcpcb.decode16u (encode16u w ++ rest) = (w, rest) := by
  have hlt := w.toNat_lt
  have htake : (toLE 2 w.toNat ++ rest).take 2 = toLE 2 w.toNat := List.take_left' (toLE_length 2 _)
  have hdrop : (toLE 2 w.toNat ++ rest).drop 2 = rest := List.drop_left' (toLE_length 2 _)
  rw [Kcpcb.decode16u, encode16u, htake, hdrop, fromLE_toLE, Nat.mod_eq_of_lt (by omega), UInt16.ofNat_toNat]

theorem decode8u_encode8u (c : UInt8) (rest : Bytes) : decode8u (encode8u c ++ rest) = (c, rest) := rfl

/-- **The header is read back as it was written**. -/
theorem decodeHeader_ikcpEncodeSeg (seg : IkcpSeg) (rest : Bytes) :
    Kcpcb.decodeHeader (ikcpEncodeSeg seg ++ rest) = (seg.head, rest) := by
  simp only [Kcpcb.decodeHeader, ikcpEncodeSeg, List.append_assoc, decode32u_encode32u, decode16u_encode16u,
    decode8u_encode8u, IkcpSeg.head]

/-- A datagram is cut into segments in one way. -/
theorem datagram_inj {segs segs' : List IkcpSeg} (h : ∀ seg ∈ segs, seg.data.length < 2 ^ 31)
    (h' : ∀ seg ∈ segs', seg.data.length < 2 ^ 31) (heq : datagram segs = datagram segs') :
    segs.map (fun seg => (seg.head, seg.data)) = segs'.map fun seg => (seg.head, seg.data) := by
  have hlong : ∀ seg segs, datagram (seg :: segs) ≠ [] := by
    intro seg segs hnil
    have hlen := seg.bytes_length
    have hzero := congrArg List.length hnil
    rw [datagram_cons, List.length_append, List.length_nil] at hzero
    simp only [ikcpOverhead] at hlen
    omega
  have hdecode : ∀ seg segs, Kcpcb.decodeHeader (datagram (seg :: segs)) = (seg.head, seg.data ++ datagram segs) := by
    intro seg segs
    rw [datagram_cons, IkcpSeg.bytes, List.append_assoc, decodeHeader_ikcpEncodeSeg]
  induction segs generalizing segs' with
  | nil =>
    cases segs' with
    | nil => rfl
    | cons seg' segs' => exact absurd heq.symm (hlong _ _)
  | cons seg segs ih =>
    cases segs' with
    | nil => exact absurd heq (hlong _ _)
    | cons seg' segs' =>
      obtain ⟨hseg, h⟩ := List.forall_mem_cons.mp h
      obtain ⟨hseg', h'⟩ := List.forall_mem_cons.mp h'
      have hboth := hdecode seg segs
      rw [heq, hdecode seg' segs', Prod.mk.injEq] at hboth
      obtain ⟨hhead, hrest⟩ := hboth
      have hlen := congrArg (fun head : Kcpcb.SegHeader => head.len.toNat) hhead
      simp only [IkcpSeg.head, UInt32.toNat_ofNat'] at hlen
      obtain ⟨hdata, hdatagram⟩ := List.append_inj hrest (by omega)
      rw [List.map_cons, List.map_cons, ih h h' hdatagram.symm, hhead, hdata]

/-- `ikcp_input` under these ids takes the segment. -/
structure IkcpSeg.Readable (conv token : UInt32) (seg : IkcpSeg) : Prop where
  conv : seg.conv = conv
  token : seg.token = token
  cmd : seg.cmd = ikcpCmdPush ∨ seg.cmd = ikcpCmdAck ∨ seg.cmd = ikcpCmdWask ∨ seg.cmd = ikcpCmdWins
  len : seg.data.length < 2 ^ 31

namespace Kcpcb

/-- The segments of a datagram, one after the other. -/
def inputSegs (kcp : Kcpcb) (segs : List IkcpSeg) : Kcpcb :=
  segs.foldl (fun kcp seg => kcp.inputSeg seg.head seg.data) kcp

def maxAcks (maxack : Option UInt32) (segs : List IkcpSeg) : Option UInt32 :=
  segs.foldl (fun maxack seg => maxAck maxack seg.head) maxack

theorem inputSeg_ids (kcp : Kcpcb) (head : SegHeader) (data : Bytes) :
    (kcp.inputSeg head data).conv = kcp.conv ∧ (kcp.inputSeg head data).token = kcp.token := by
  rw [inputSeg_rcv]
  split
  · exact ikcpPush_ids _ _
  · exact ⟨rfl, rfl⟩

theorem inputLoop_datagram {segs : List IkcpSeg} (fuel : Nat) {kcp : Kcpcb} (maxack : Option UInt32)
    (hfuel : (datagram segs).length ≤ fuel) (h : ∀ seg ∈ segs, seg.Readable kcp.conv kcp.token) :
    inputLoop fuel kcp maxack (datagram segs) = (0, kcp.inputSegs segs, maxAcks maxack segs) := by
  induction segs generalizing fuel kcp maxack with
  | nil =>
    cases fuel with
    | zero => rfl
    | succ fuel => rw [inputLoop, if_pos (by decide)]; rfl
  | cons seg segs ih =>
    obtain ⟨hseg, hsegs⟩ := List.forall_mem_cons.mp h
    have hbytes := seg.bytes_length
    have hlong : ¬ (datagram (seg :: segs)).length < ikcpOverhead := by
      rw [datagram_cons, List.length_append]
      omega
    rw [datagram_cons, List.length_append] at hfuel
    have hlen : (UInt32.ofNat seg.data.length).toNat = seg.data.length := by
      have := hseg.len
      rw [UInt32.toNat_ofNat']
      omega
    obtain ⟨fuel, rfl⟩ : ∃ n, fuel = n + 1 := ⟨fuel - 1, by simp only [ikcpOverhead] at hbytes; omega⟩
    have hhead : decodeHeader (datagram (seg :: segs)) = (seg.head, seg.data ++ datagram segs) := by
      rw [datagram_cons, IkcpSeg.bytes, List.append_assoc, decodeHeader_ikcpEncodeSeg]
    rw [inputLoop_succ _ _ _ hlong, hhead]
    dsimp only
    have hids : ¬ (seg.head.conv ≠ kcp.conv ∨ seg.head.token ≠ kcp.token) := by
      simp [IkcpSeg.head, hseg.conv, hseg.token]
    have hfit : ¬ ((seg.data ++ datagram segs).length < seg.head.len.toNat ∨ 2 ^ 31 ≤ seg.head.len.toNat) := by
      have := hseg.len
      rw [show seg.head.len.toNat = seg.data.length from hlen, List.length_append]
      omega
    have hcmd : ¬ (seg.head.cmd ≠ ikcpCmdPush ∧ seg.head.cmd ≠ ikcpCmdAck ∧ seg.head.cmd ≠ ikcpCmdWask ∧
        seg.head.cmd ≠ ikcpCmdWins) := by
      rintro ⟨h1, h2, h3, h4⟩
      rcases hseg.cmd with h | h | h | h <;> contradiction
    rw [if_neg hids, if_neg hfit, if_neg hcmd, show seg.head.len.toNat = seg.data.length from hlen,
      List.take_left, List.drop_left]
    have hids' := kcp.inputSeg_ids seg.head seg.data
    refine ih fuel _ ?_ ?_
    · simp only [ikcpOverhead] at hbytes
      omega
    · rw [hids'.1, hids'.2]
      exact hsegs

/-- **A datagram of segments is taken segment by segment**, and nothing of it is refused. -/
theorem input_datagram {segs : List IkcpSeg} {kcp : Kcpcb} (hne : segs ≠ [])
    (h : ∀ seg ∈ segs, seg.Readable kcp.conv kcp.token) :
    kcp.input (datagram segs) = (0, (kcp.inputSegs segs).afterInput kcp.sndUna (maxAcks none segs)) := by
  have hlong : ¬ (datagram segs).length < ikcpOverhead := by
    cases segs with
    | nil => exact absurd rfl hne
    | cons seg segs =>
      rw [datagram_cons, List.length_append, seg.bytes_length]
      omega
  unfold input
  rw [if_neg hlong, inputLoop_datagram _ none (Nat.le_refl _) h]
  rfl

end Kcpcb

end EyPS
