/-
The two ends of a link going on without new messages. The receiver takes out all it has,
and the oldest segment gets through: it is sent again when its time has come, and its
acknowledgement takes it out of `snd_buf`.
-/
import EyPS.KcpAlive

namespace EyPS

/-! ## Going on without new messages -/

/-- The calls the ends go on with. -/
def KcpAct.Quiet : KcpAct → Prop
  | .recv len => len ≠ Int32.minValue
  | .update _ => True
  | .flush => True
  | _ => False

/-- One end is called, or takes a datagram of the other. -/
inductive PeerMove : Peer × Peer → Peer × Peer → Prop
  | callLeft (p q : Peer) (a : KcpAct) (ha : a.Quiet) : PeerMove (p, q) (p.step a, q)
  | callRight (p q : Peer) (a : KcpAct) (ha : a.Quiet) : PeerMove (p, q) (p, q.step a)
  | toLeft (p q : Peer) (d : Bytes) (hd : d ∈ q.out) : PeerMove (p, q) (p.step (.input d), q)
  | toRight (p q : Peer) (d : Bytes) (hd : d ∈ p.out) : PeerMove (p, q) (p, q.step (.input d))

abbrev PeerMoves : Peer × Peer → Peer × Peer → Prop := Relation.ReflTransGen PeerMove

theorem PeerMoves.swap {p q p' q' : Peer} (h : PeerMoves (p, q) (p', q')) : PeerMoves (q, p) (q', p') := by
  have key : ∀ pq : Peer × Peer, PeerMoves (p, q) pq → PeerMoves (q, p) pq.swap := by
    intro pq h
    induction h with
    | refl => exact .refl
    | tail _ hm ih =>
      refine ih.tail ?_
      cases hm with
      | callLeft p q a ha => exact .callRight q p a ha
      | callRight p q a ha => exact .callLeft q p a ha
      | toLeft p q d hd => exact .toRight q p d hd
      | toRight p q d hd => exact .toLeft q p d hd
  exact key _ h

/-- Two ends that can go on. -/
structure Live (conv token : UInt32) (p q : Peer) : Prop where
  peers : Peers conv token p q
  left : p.queued.length < 2 ^ 31
  right : q.queued.length < 2 ^ 31
  aliveLeft : p.kcp.Alive
  aliveRight : q.kcp.Alive

namespace Live

variable {conv token : UInt32} {p q : Peer}

theorem symm (h : Live conv token p q) : Live conv token q p :=
  ⟨h.peers.symm, h.right, h.left, h.aliveRight, h.aliveLeft⟩

/-- What a call or an arrival leaves alone: what was accepted, and `ikcp_waitsnd` does not grow. -/
theorem step_quiet {a : KcpAct} (ha : a.Quiet ∨ ∃ d, a = .input d) :
    (p.step a).accepted = p.accepted ∧ (p.step a).queued = p.queued ∧ (p.step a).kcp.waitsnd ≤ p.kcp.waitsnd := by
  cases a with
  | recv len =>
    obtain ⟨probe, heq⟩ := p.kcp.recv_eq len.toInt
    refine ⟨List.append_nil _, List.append_nil _, Nat.le_of_eq ?_⟩
    show (p.kcp.recv len.toInt).2.2.waitsnd = _
    rw [heq]
    rfl
  | update current =>
    refine ⟨List.append_nil _, List.append_nil _, Nat.le_of_eq ?_⟩
    show (p.kcp.update current).2.waitsnd = _
    obtain ⟨tsFlush, heq | heq⟩ := p.kcp.update_cases current
    · rw [heq, Kcpcb.flush_waitsnd]
      rfl
    · rw [heq]
      rfl
  | flush => exact ⟨List.append_nil _, List.append_nil _, Nat.le_of_eq p.kcp.flush_waitsnd⟩
  | input d =>
    have hsame := p.kcp.input_sameSend d
    refine ⟨List.append_nil _, List.append_nil _, ?_⟩
    show (p.kcp.input d).2.sndBuf.length + (p.kcp.input d).2.sndQueue.length ≤ _
    have hle := hsame.sndBuf.length_le
    rw [Kcpcb.inFlight, Kcpcb.inFlight, List.length_map, List.length_map] at hle
    rw [hsame.sndQueue]
    exact Nat.add_le_add_right hle _
  | _ => rcases ha with h | ⟨d, h⟩ <;> simp [KcpAct.Quiet] at h

theorem step_left (h : Live conv token p q) {a : KcpAct} (ha : a.Quiet ∨ ∃ d ∈ q.out, a = .input d) :
    Live conv token (p.step a) q := by
  have hquiet : a.Quiet ∨ ∃ d, a = .input d := ha.imp_right fun ⟨d, _, heq⟩ => ⟨d, heq⟩
  have hfrom : a.From q := by
    rcases ha with ha | ⟨d, hd, rfl⟩
    · cases a <;> trivial
    · exact hd
  have hwnd : Kcpcb.RcvWndLe 65535 a := by
    rcases ha with ha | ⟨d, hd, rfl⟩
    · cases a <;> trivial
    · trivial
  obtain ⟨-, hqueued, -⟩ := step_quiet (p := p) hquiet
  refine ⟨h.peers.step hfrom h.left h.right, ?_, h.right, h.aliveLeft.step hwnd, h.aliveRight⟩
  rw [hqueued]
  exact h.left

theorem move (h : Live conv token p q) {pq : Peer × Peer} (hm : PeerMove (p, q) pq) :
    Live conv token pq.1 pq.2 ∧ pq.1.accepted = p.accepted ∧ pq.2.accepted = q.accepted ∧
      pq.1.kcp.waitsnd ≤ p.kcp.waitsnd ∧ pq.2.kcp.waitsnd ≤ q.kcp.waitsnd := by
  cases hm with
  | callLeft _ _ a ha =>
    obtain ⟨hacc, -, hwait⟩ := step_quiet (p := p) (.inl ha)
    exact ⟨h.step_left (.inl ha), hacc, rfl, hwait, Nat.le_refl _⟩
  | callRight _ _ a ha =>
    obtain ⟨hacc, -, hwait⟩ := step_quiet (p := q) (.inl ha)
    exact ⟨(h.symm.step_left (.inl ha)).symm, rfl, hacc, Nat.le_refl _, hwait⟩
  | toLeft _ _ d hd =>
    obtain ⟨hacc, -, hwait⟩ := step_quiet (p := p) (.inr ⟨d, rfl⟩)
    exact ⟨h.step_left (.inr ⟨d, hd, rfl⟩), hacc, rfl, hwait, Nat.le_refl _⟩
  | toRight _ _ d hd =>
    obtain ⟨hacc, -, hwait⟩ := step_quiet (p := q) (.inr ⟨d, rfl⟩)
    exact ⟨(h.symm.step_left (.inr ⟨d, hd, rfl⟩)).symm, rfl, hacc, Nat.le_refl _, hwait⟩

/-- The same of any number of moves. -/
theorem moves (h : Live conv token p q) {p' q' : Peer} (hm : PeerMoves (p, q) (p', q')) :
    Live conv token p' q' ∧ p'.accepted = p.accepted ∧ q'.accepted = q.accepted ∧
      p'.kcp.waitsnd ≤ p.kcp.waitsnd ∧ q'.kcp.waitsnd ≤ q.kcp.waitsnd := by
  have key : ∀ pq : Peer × Peer, PeerMoves (p, q) pq →
      Live conv token pq.1 pq.2 ∧ pq.1.accepted = p.accepted ∧ pq.2.accepted = q.accepted ∧
        pq.1.kcp.waitsnd ≤ p.kcp.waitsnd ∧ pq.2.kcp.waitsnd ≤ q.kcp.waitsnd := by
    intro pq hm
    induction hm with
    | refl => exact ⟨h, rfl, rfl, Nat.le_refl _, Nat.le_refl _⟩
    | tail _ hm ih =>
      obtain ⟨hlive, hacc, hacc', hwait, hwait'⟩ := ih
      obtain ⟨hlive', h1, h2, h3, h4⟩ := hlive.move hm
      exact ⟨hlive', h1.trans hacc, h2.trans hacc', Nat.le_trans h3 hwait, Nat.le_trans h4 hwait'⟩
  exact key _ hm

/-! ## The receiver takes out what it has -/

/-- What was received so far is a beginning of what was accepted. -/
theorem received_of_accepted (h : Live conv token p q) : q.received <+: p.accepted := by
  obtain ⟨-, ms, -, haccepted, -⟩ := h.peers.forth.received h.peers.left h.peers.framedRight
  exact ⟨ms, haccepted.symm⟩

/-- A complete message is received by a call that has room for it. -/
theorem recv_head (h : Live conv token p q) {m : Bytes} (hm : headMessage q.kcp.rcvQueue = some m) :
    (q.step (.recv 0x7fffffff)).received = q.received ++ [m] ∧
      (q.kcp.Asked → (q.step (.recv 0x7fffffff)).kcp.Asked) := by
  obtain ⟨more, ms, -, haccepted, hms⟩ := h.peers.forth.received h.peers.left h.peers.framedRight
  obtain ⟨ms', rfl, -, -⟩ := headMessage_fragments hms hm
  have hlt : m.length < 2 ^ 31 := h.peers.left.accepted_lt m (by rw [haccepted]; simp)
  have hlen : (0x7fffffff : Int32).toInt = 2 ^ 31 - 1 := rfl
  have hrecv := ikcpRecv_headMessage hm (show (m.length : Int) ≤ (0x7fffffff : Int32).toInt by omega)
  obtain ⟨hret, hdata, -⟩ := q.kcp.recv_rcv (0x7fffffff : Int32).toInt
  rw [hrecv] at hret hdata
  have hreturns : Peer.returns q.kcp (.recv 0x7fffffff) = [m] := by
    rw [Peer.returns, hret, hdata, if_pos ⟨Int.natCast_nonneg _, by omega⟩]
  refine ⟨?_, fun hasked => ?_⟩
  · show q.received ++ Peer.returns q.kcp (.recv 0x7fffffff) = _
    rw [hreturns]
  · show (q.kcp.recv (0x7fffffff : Int32).toInt).2.2.Asked
    unfold Kcpcb.recv
    dsimp only
    split
    · exact hasked
    · split
      · exact hasked.or ikcpAskTell
      · exact hasked

/-- The receiver can take out all it has. -/
theorem drain (h : Live conv token p q) :
    ∃ q', PeerMoves (p, q) (p, q') ∧ headMessage q'.kcp.rcvQueue = none ∧ (q.kcp.Asked → q'.kcp.Asked) := by
  have hquiet : (KcpAct.recv 0x7fffffff).Quiet := show (0x7fffffff : Int32) ≠ Int32.minValue by decide
  generalize hn : p.accepted.length - q.received.length = n
  induction n generalizing q with
  | zero =>
    cases hm : headMessage q.kcp.rcvQueue with
    | none => exact ⟨q, .refl, hm, id⟩
    | some m =>
      obtain ⟨hreceived, -⟩ := h.recv_head hm
      have hstep : Live conv token p (q.step (.recv 0x7fffffff)) := (h.symm.step_left (.inl hquiet)).symm
      have hle := hstep.received_of_accepted.length_le
      rw [hreceived, List.length_append, List.length_singleton] at hle
      omega
  | succ n ih =>
    cases hm : headMessage q.kcp.rcvQueue with
    | none => exact ⟨q, .refl, hm, id⟩
    | some m =>
      obtain ⟨hreceived, hasked⟩ := h.recv_head hm
      have hstep : Live conv token p (q.step (.recv 0x7fffffff)) := (h.symm.step_left (.inl hquiet)).symm
      have hlen := congrArg List.length hreceived
      rw [List.length_append, List.length_singleton] at hlen
      obtain ⟨q', hmoves, hnone, hasked'⟩ := ih hstep (by omega)
      exact ⟨q', hmoves.head (.callRight p q _ hquiet), hnone, fun ha => hasked' (hasked ha)⟩

/-! ## The sender flushes at a time -/

/-- An end can flush as of any time. -/
theorem flushAt (p q : Peer) (current : UInt32) :
    ∃ tsFlush, ∃ kcp : Kcpcb, kcp = { p.kcp with current := current, updated := true, tsFlush := tsFlush } ∧
      PeerMoves (p, q) ({ p with kcp := kcp.flush.2, out := p.out ++ kcp.flush.1 }, q) := by
  have hcall := PeerMove.callLeft p q (.update current) trivial
  obtain ⟨tsFlush, heq | heq⟩ := p.kcp.update_cases current
  · refine ⟨tsFlush, _, rfl, .single ?_⟩
    rw [Peer.step_eq rfl rfl, Kcpcb.step, heq] at hcall
    exact hcall
  · refine ⟨tsFlush, _, rfl, ?_⟩
    rw [Peer.step_eq rfl rfl, Kcpcb.step, heq, List.append_nil] at hcall
    refine (Relation.ReflTransGen.single hcall).tail ?_
    have hflush := PeerMove.callLeft { p with
      kcp := { p.kcp with current := current, updated := true, tsFlush := tsFlush } } q .flush trivial
    rw [Peer.step_eq rfl rfl] at hflush
    exact hflush

/-- Each segment of that flush is in a datagram that the other end reads. -/
theorem flushAt_sends {conv token : UInt32} {p : Peer} (hp : p.Ok conv token) {current tsFlush : UInt32} {kcp : Kcpcb}
    (hkcp : kcp = { p.kcp with current := current, updated := true, tsFlush := tsFlush }) {t : IkcpSeg}
    (ht : t ∈ kcp.flushSegs) :
    ∃ segs, datagram segs ∈ p.out ++ kcp.flush.1 ∧ t ∈ segs ∧ (∀ t ∈ segs, t ∈ kcp.flushSegs) ∧
      ∀ t ∈ segs, t.Readable conv token := by
  have hu : kcp.updated = true := by rw [hkcp]
  have hok : { p with kcp := kcp }.Ok conv token := by
    rw [hkcp]
    exact hp.congr rfl rfl rfl rfl rfl rfl hp.sndQueue hp.sndBuf
  obtain ⟨d, hd, segs, rfl, hmem, hsegs⟩ := Kcpcb.flush_sends hu ht
  exact ⟨segs, List.mem_append_right _ hd, hmem, hsegs, fun t ht => (hok.flushSegs t (hsegs t ht)).1⟩

/-! ## The oldest segment is sent again -/

/-- The numbers in `snd_buf` start with the first one and are close to it. -/
theorem oldest_le (h : Live conv token p q) {s : IkcpSeg} {rest : List IkcpSeg} (hbuf : p.kcp.sndBuf = s :: rest)
    {l : Arq.Link Fragment} (hc : Carries conv token p q l) :
    (∀ t ∈ p.kcp.inFlight, s.sn.toNat ≤ t.sn.toNat) ∧ s.sn.toNat < l.log.length ∧
      l.log.length ≤ s.sn.toNat + 65535 := by
  have hwin := h.aliveLeft.send.window
  have hlog := hc.log_length_le
  have hleft := h.left
  have hflight : p.kcp.inFlight = s.seg :: rest.map IkcpSeg.seg := by rw [Kcpcb.inFlight, hbuf]; rfl
  have huna : p.kcp.sndUna = s.sn := by
    rw [hwin.una, Kcpcb.firstSn, hflight]
    rfl
  have hnxt : p.kcp.sndNxt.toNat = l.log.length := by rw [hc.sndNxt, toNat_ofNat_of_lt (by omega)]
  have hlt : ∀ t ∈ p.kcp.inFlight, t.sn.toNat < l.log.length := fun t ht =>
    (List.getElem?_eq_some_iff.mp (hc.sent t ht)).1
  have hfirst : s.sn.toNat < l.log.length := hlt s.seg (by rw [hflight]; exact List.mem_cons_self)
  have hle : (p.kcp.sndNxt - s.sn).toNat ≤ 65535 := by
    have := hwin.flight_le
    rw [Kcpcb.flight, huna] at this
    omega
  have hsub := UInt32.toNat_sub p.kcp.sndNxt s.sn
  refine ⟨fun t ht => ?_, hfirst, by omega⟩
  have hbefore := hwin.before t ht
  rw [Kcpcb.flight, huna] at hbefore
  have hsub' := UInt32.toNat_sub t.sn s.sn
  have := hlt t ht
  omega

/-- With no message left to receive, all before the oldest segment is delivered. -/
theorem oldest_next (h : Live conv token p q) {s : IkcpSeg} {rest : List IkcpSeg} (hbuf : p.kcp.sndBuf = s :: rest)
    (hnone : headMessage q.kcp.rcvQueue = none) {l : Arq.Link Fragment} (hl : l.Inv)
    (hc : Carries conv token p q l) : s.sn.toNat ≤ l.delivered.length := by
  obtain ⟨hfirst, hlt, -⟩ := h.oldest_le hbuf hc
  obtain ⟨-, hmissing⟩ := h.peers.next_missing hnone
  have hlog := hc.log_length_le
  have hleft := h.left
  by_contra hgt
  have hnext : l.Arrived l.delivered.length := by
    refine hl.kept _ (by omega) fun hk => ?_
    obtain ⟨t, ht, hsn⟩ := (hc.kept _).mp hk
    have := hfirst t ht
    omega
  rcases hc.arrived _ hnext with hlt | ⟨t, ht, hsn⟩
  · omega
  · refine hmissing t ht (UInt32.toNat_inj.mp ?_)
    rw [hsn, hc.rcvNxt, toNat_ofNat_of_lt (by omega)]

/-- A PUSH of a number that the receiver has or waits for is to be acknowledged. -/
theorem inputSegs_acks {l : Arq.Link Fragment} (hc : Carries conv token p q l) (hl : l.Inv)
    (hbound : p.queued.length < 2 ^ 31) (hwnd : 0 < q.kcp.rcvWnd.toNat ∧ q.kcp.rcvWnd.toNat ≤ 65535) {s : IkcpSeg}
    (hcmd : s.cmd = ikcpCmdPush) (hnext : s.sn.toNat ≤ l.delivered.length)
    (hlast : l.log.length ≤ s.sn.toNat + 65535) {segs : List IkcpSeg} (hs : s ∈ segs)
    (hsegs : ∀ t ∈ segs, t.frg < 256 ∧ (t.cmd = ikcpCmdPush → .data t.sn.toNat t.seg.fragment ∈ l.wire)) :
    ∃ x ∈ (q.kcp.inputSegs segs).acklist, x.1 = s.sn := by
  induction segs generalizing q l with
  | nil => cases hs
  | cons t segs ih =>
    have hlog := hc.log_length_le
    have hle := hl.delivered.length_le
    rcases List.mem_cons.mp hs with rfl | hs
    · refine ⟨(s.sn, s.ts), Kcpcb.inputSegs_acklist _ segs _ ?_, rfl⟩
      have hnxt : q.kcp.rcvNxt.toNat = l.delivered.length := by rw [hc.rcvNxt, toNat_ofNat_of_lt (by omega)]
      have hin : itimediff s.head.sn (q.kcp.rcvNxt + q.kcp.rcvWnd) < 0 := by
        have hadd := UInt32.toNat_add q.kcp.rcvNxt q.kcp.rcvWnd
        have hsub := UInt32.toNat_sub s.sn (q.kcp.rcvNxt + q.kcp.rcvWnd)
        have hsn : s.head.sn = s.sn := rfl
        rw [itimediff_neg_iff, hsn]
        omega
      have hhead : s.head.cmd = ikcpCmdPush := hcmd
      rw [Kcpcb.inputSeg_acklist, if_pos hhead, Kcpcb.pushAcks, if_pos hin]
      exact List.mem_append_right _ (List.mem_singleton_self _)
    · obtain ⟨⟨hfrg, hpush⟩, hsegs⟩ := List.forall_mem_cons.mp hsegs
      have hhead : t.head.cmd = ikcpCmdPush → .data t.head.sn.toNat ⟨t.head.frg.toNat, t.data⟩ ∈ l.wire := by
        intro hc
        rw [show t.head.frg.toNat = t.frg from UInt8.toNat_ofNat_of_lt' hfrg]
        exact hpush hc
      obtain ⟨l', hsteps, hc'⟩ := hc.inputSeg_right hl hbound t.head t.data hhead
      have hmono : l'.Tells (.una s.sn.toNat) := hsteps.tells hnext
      have hlen : l'.log.length = l.log.length := by
        have hlog' := hc'.log_length_le
        have hsame := congrArg UInt32.toNat (hc'.sndNxt.symm.trans hc.sndNxt)
        rwa [toNat_ofNat_of_lt (by omega), toNat_ofNat_of_lt (by omega)] at hsame
      refine ih hc' (hl.steps hsteps) ?_ hmono (by omega) hs fun t ht =>
        ⟨(hsegs t ht).1, fun hcmd => hsteps.wire_subset ((hsegs t ht).2 hcmd)⟩
      rw [show ({ q with kcp := q.kcp.inputSeg t.head t.data } : Peer).kcp.rcvWnd = q.kcp.rcvWnd from
        q.kcp.inputSeg_rcvWnd t.head t.data]
      exact hwnd

/-- A datagram of `p` with a PUSH of its oldest segment puts the number in `acklist`. -/
theorem input_acks (h : Live conv token p q) {s : IkcpSeg} {rest : List IkcpSeg} (hbuf : p.kcp.sndBuf = s :: rest)
    (hnone : headMessage q.kcp.rcvQueue = none) {segs : List IkcpSeg} (hd : datagram segs ∈ p.out)
    (hlen : ∀ t ∈ segs, t.data.length < 2 ^ 31) {t : IkcpSeg} (ht : t ∈ segs) (hcmd : t.cmd = ikcpCmdPush)
    (hsn : t.sn = s.sn) :
    ∃ x ∈ (q.kcp.input (datagram segs)).2.acklist, x.1 = s.sn := by
  obtain ⟨l, hsteps, hc⟩ := h.peers.forth
  have hl := Arq.Link.Inv.init.steps hsteps
  obtain ⟨segs', hne, heq, hsegs⟩ := hc.data _ hd
  obtain ⟨-, -, hlast⟩ := h.oldest_le hbuf hc
  -- the channel has the same segments
  have hsame := datagram_inj hlen (fun t ht => (hsegs t ht).1.len) heq
  have hmem : (t.head, t.data) ∈ segs.map fun seg => (seg.head, seg.data) := List.mem_map_of_mem ht
  rw [hsame] at hmem
  obtain ⟨t', ht', hhead⟩ := List.mem_map.mp hmem
  have hhead : t'.head = t.head := (Prod.mk.inj hhead).1
  have hcmd' : t'.cmd = ikcpCmdPush := (congrArg Kcpcb.SegHeader.cmd hhead).trans hcmd
  have hsn' : t'.sn = s.sn := (congrArg Kcpcb.SegHeader.sn hhead).trans hsn
  have hread : ∀ t ∈ segs', t.Readable q.kcp.conv q.kcp.token := by
    rw [h.peers.right.conv_eq, h.peers.right.token_eq]
    exact fun t ht => (hsegs t ht).1
  have hrecv := h.aliveRight.recv
  have hmin := hrecv.2.rcvWnd
  have hacks := inputSegs_acks hc hl h.left ⟨by omega, hrecv.1.rcvWnd⟩ hcmd'
    (by rw [hsn']; exact h.oldest_next hbuf hnone hl hc) (by rw [hsn']; exact hlast) ht' fun t ht => (hsegs t ht).2
  obtain ⟨buf, cwnd, incr, hafter, -⟩ :=
    (q.kcp.inputSegs segs').afterInput_eq q.kcp.sndUna (Kcpcb.maxAcks none segs')
  rw [heq, Kcpcb.input_datagram hne hread, hafter, ← hsn']
  exact hacks

/-- A datagram of `q` with the acknowledgement of the oldest segment takes that out. -/
theorem input_acked (h : Live conv token p q) {s : IkcpSeg} {rest : List IkcpSeg} (hbuf : p.kcp.sndBuf = s :: rest)
    {segs : List IkcpSeg} (hread : ∀ t ∈ segs, t.Readable conv token) {t : IkcpSeg}
    (ht : t ∈ segs) (hcmd : t.cmd = ikcpCmdAck) (hsn : t.sn = s.sn) :
    (p.kcp.input (datagram segs)).2.waitsnd < p.kcp.waitsnd := by
  obtain ⟨l, hsteps, hc⟩ := h.peers.forth
  obtain ⟨hfirst, hlt, -⟩ := h.oldest_le hbuf hc
  have hlog := hc.log_length_le
  have hleft := h.left
  have hwin := h.aliveLeft.send.window
  have hne : segs ≠ [] := List.ne_nil_of_mem ht
  have hread' : ∀ t ∈ segs, t.Readable p.kcp.conv p.kcp.token := by
    rw [h.peers.left.conv_eq, h.peers.left.token_eq]
    exact hread
  have hflight : p.kcp.inFlight = s.seg :: rest.map IkcpSeg.seg := by rw [Kcpcb.inFlight, hbuf]; rfl
  have htail : ∀ x ∈ p.kcp.inFlight.tail, x.sn ≠ t.sn := by
    intro x hx heq
    have hasc := hwin.ascending
    rw [hflight, List.pairwise_cons] at hasc
    rw [hflight] at hx
    have hlt := hasc.1 x hx
    rw [heq, hsn] at hlt
    exact absurd hlt (Nat.lt_irrefl _)
  have hnxt : itimediff t.sn p.kcp.sndNxt < 0 := by
    have hnat : p.kcp.sndNxt.toNat = l.log.length := by rw [hc.sndNxt, toNat_ofNat_of_lt (by omega)]
    rw [hsn, itimediff_of_lt (by omega) (by omega)]
    omega
  have hgone := Kcpcb.inputSegs_acked ht hcmd htail hnxt
  have hsame := p.kcp.input_sameSend (datagram segs)
  have hinput : (p.kcp.input (datagram segs)).2.inFlight = (p.kcp.inputSegs segs).inFlight := by
    rw [Kcpcb.input_datagram hne hread']
    exact Kcpcb.afterInput_inFlight _ _ _
  have hsub := hsame.sndBuf
  rw [hinput] at hsub
  have hlen : (p.kcp.inputSegs segs).inFlight.length < p.kcp.inFlight.length := by
    refine Nat.lt_of_le_of_ne hsub.length_le fun heq => ?_
    refine hgone s.seg ?_ hsn.symm
    rw [hsub.eq_of_length heq, hflight]
    exact List.mem_cons_self
  rw [← hinput, Kcpcb.inFlight, Kcpcb.inFlight, List.length_map, List.length_map] at hlen
  rw [Kcpcb.waitsnd, Kcpcb.waitsnd, hsame.sndQueue]
  exact Nat.add_lt_add_right hlen _

/-- The oldest segment is sent at the time it is due. -/
theorem oldest_sent (hp : p.Ok conv token) {s : IkcpSeg} {rest : List IkcpSeg} (hbuf : p.kcp.sndBuf = s :: rest)
    (tsFlush : UInt32) :
    let kcp : Kcpcb := { p.kcp with current := s.resendts, updated := true, tsFlush := tsFlush }
    (∃ t ∈ kcp.flushSegs, t.cmd = ikcpCmdPush ∧ t.sn = s.sn) ∧
      ∃ s' rest', kcp.flush.2.sndBuf = s' :: rest' ∧ s'.sn = s.sn := by
  intro kcp
  obtain ⟨more, hmore⟩ := kcp.numbered_prefix.1
  have hnum : kcp.numbered.sndBuf = s :: (rest ++ more) := by rw [← hmore]; exact congrArg (· ++ more) hbuf
  have hcurrent : kcp.numbered.current = s.resendts := by
    obtain ⟨_, _, _, _, _, _, heq⟩ := kcp.numbered_eq
    rw [heq]
  have hpush := hp.sndBuf s (by rw [hbuf]; exact List.mem_cons_self)
  have hdue : ∃ d, kcp.numbered.due s = some d := by
    unfold Kcpcb.due
    split
    · exact ⟨_, rfl⟩
    · rw [hcurrent, itimediff_self, if_pos (Int.le_refl 0)]
      exact ⟨_, rfl⟩
  obtain ⟨d, hd⟩ := hdue
  have hmem : kcp.numbered.stamp s d ∈ kcp.numbered.dueSegs := by
    refine List.mem_filterMap.mpr ⟨s, ?_, by rw [hd]; rfl⟩
    rw [hnum]
    exact List.mem_cons_self
  have hsn : (kcp.numbered.stamp s d).sn = s.sn := congrArg Seg.sn (kcp.numbered.stamp_seg s d)
  refine ⟨⟨kcp.numbered.stamp s d, ?_, (hpush.stamp kcp.numbered d).cmd, hsn⟩, ?_⟩
  · exact List.mem_append_right _ (List.mem_append_right _ hmem)
  · have hu : kcp.updated = true := rfl
    obtain ⟨_, _, _, _, heq⟩ := Kcpcb.flush_eq hu
    have hflush := congrArg Seg.sn (kcp.numbered.flushSeg_seg s)
    rw [heq]
    refine ⟨kcp.numbered.flushSeg s, (rest ++ more).map kcp.numbered.flushSeg, ?_, hflush⟩
    show kcp.numbered.sndBuf.map kcp.numbered.flushSeg = _
    rw [hnum]
    rfl

/-- A flush acknowledges all of `acklist`. -/
theorem ack_sent {kcp : Kcpcb} {x : UInt32 × UInt32} (hx : x ∈ kcp.acklist) :
    ∃ t ∈ kcp.flushSegs, t.cmd = ikcpCmdAck ∧ t.sn = x.1 :=
  ⟨kcp.ctlSeg ikcpCmdAck x.1 x.2, List.mem_append_left _ (List.mem_map_of_mem hx), rfl, rfl⟩

/-- **The oldest segment gets through**: it is sent again, acknowledged and taken out. -/
theorem resend (h : Live conv token p q) {s : IkcpSeg} {rest : List IkcpSeg} (hbuf : p.kcp.sndBuf = s :: rest) :
    ∃ p' q', PeerMoves (p, q) (p', q') ∧ p'.kcp.waitsnd < p.kcp.waitsnd := by
  obtain ⟨q₁, hdrain, hnone, -⟩ := h.drain
  obtain ⟨tsFlush, kcp, hkcp, hflush⟩ := flushAt p q₁ s.resendts
  let p₁ : Peer := { p with kcp := kcp.flush.2, out := p.out ++ kcp.flush.1 }
  have hmoves₁ := hdrain.trans hflush
  obtain ⟨hlive, -, -, hwait, -⟩ := h.moves hmoves₁
  obtain ⟨⟨t, ht, hcmd, hsn⟩, s', rest', hbuf', hsn'⟩ := oldest_sent h.peers.left hbuf tsFlush
  rw [← hkcp] at ht hbuf'
  -- the receiver takes it, and acknowledges it
  obtain ⟨segs, hd, hmem, -, hread⟩ := flushAt_sends h.peers.left hkcp ht
  obtain ⟨x, hx, hxsn⟩ := hlive.input_acks (p := p₁) hbuf' hnone hd (fun t ht => (hread t ht).len) hmem hcmd
    (hsn.trans hsn'.symm)
  let q₂ : Peer := q₁.step (.input (datagram segs))
  have hmoves₂ := hmoves₁.tail (.toRight p₁ q₁ _ hd)
  obtain ⟨hlive₂, -, -, -, -⟩ := h.moves hmoves₂
  obtain ⟨tsFlush', kcp', hkcp', hflush'⟩ := flushAt q₂ p₁ 0
  let q₃ : Peer := { q₂ with kcp := kcp'.flush.2, out := q₂.out ++ kcp'.flush.1 }
  have hmoves₃ := hmoves₂.trans hflush'.swap
  obtain ⟨hlive₃, -, -, -, -⟩ := h.moves hmoves₃
  have hx' : x ∈ kcp'.acklist := by rw [hkcp']; exact hx
  obtain ⟨t', ht', hcmd', hsn''⟩ := ack_sent hx'
  -- the sender hears of it
  obtain ⟨segs', hd', hmem', -, hread'⟩ := flushAt_sends hlive₂.peers.right hkcp' ht'
  have hlt := hlive₃.input_acked (p := p₁) hbuf' hread' hmem' hcmd' (hsn''.trans hxsn)
  exact ⟨_, _, hmoves₃.tail (.toLeft p₁ q₃ _ hd'), Nat.lt_of_lt_of_le hlt hwait⟩

end Live

end EyPS
