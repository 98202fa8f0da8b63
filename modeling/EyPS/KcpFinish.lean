/-
KCP does not get stuck: whatever was lost so far, there remains a way for the ends and the
network to go on after which all that was accepted is received. A shut window is asked for
and told, what waits is numbered, and the oldest segment gets through, again and again.
-/
import EyPS.KcpProgress

namespace EyPS

namespace Live

variable {conv token : UInt32} {p q : Peer}

/-! ## A shut window is opened -/

/-- A flush at a time the sender is to ask at puts out a datagram that asks. -/
theorem ask_at (h : Live conv token p q) (hrmt : p.kcp.rmtWnd = 0) (hwait : p.kcp.probeWait ≠ 0) :
    ∃ p' segs, PeerMoves (p, q) (p', q) ∧ datagram segs ∈ p'.out ∧ (∀ t ∈ segs, t.Readable conv token) ∧
      ∃ t ∈ segs, t.cmd = ikcpCmdWask := by
  obtain ⟨tsFlush, kcp, hkcp, hflush⟩ := flushAt p q p.kcp.tsProbe
  obtain ⟨t, ht, hcmd⟩ := Kcpcb.probe_asks (show kcp.rmtWnd = 0 by rw [hkcp]; exact hrmt) (by rw [hkcp]; exact hwait)
    (by rw [hkcp])
  obtain ⟨segs, hd, hmem, -, hread⟩ := flushAt_sends h.peers.left hkcp ht
  exact ⟨_, segs, hflush, hd, hread, t, hmem, hcmd⟩

/-- The sender can ask for a window that is shut. -/
theorem ask (h : Live conv token p q) (hrmt : p.kcp.rmtWnd = 0) :
    ∃ p' segs, PeerMoves (p, q) (p', q) ∧ datagram segs ∈ p'.out ∧ (∀ t ∈ segs, t.Readable conv token) ∧
      ∃ t ∈ segs, t.cmd = ikcpCmdWask := by
  by_cases hwait : p.kcp.probeWait = 0
  · obtain ⟨tsFlush, kcp, hkcp, hflush⟩ := flushAt p q 0
    have hu : kcp.updated = true := by rw [hkcp]
    obtain ⟨hlive, -⟩ := h.moves hflush
    have hset := Kcpcb.flush_probeWait hu (by rw [hkcp]; exact hrmt) (by rw [hkcp]; exact hwait)
    have hshut : kcp.flush.2.rmtWnd = 0 := by
      rw [kcp.flush_wnds.2, hkcp]
      exact hrmt
    obtain ⟨p', segs, hmoves, hrest⟩ := hlive.ask_at hshut hset
    exact ⟨p', segs, hflush.trans hmoves, hrest⟩
  · exact h.ask_at hrmt hwait

/-- The sender can learn of an open window. -/
theorem openWindow (h : Live conv token p q) : ∃ p' q', PeerMoves (p, q) (p', q') ∧ p'.kcp.rmtWnd ≠ 0 := by
  by_cases hrmt : p.kcp.rmtWnd = 0
  · obtain ⟨p₁, segs, hmoves₁, hd, hread, t, ht, hcmd⟩ := h.ask hrmt
    -- the receiver is asked, and takes out all it has
    let q₁ : Peer := q.step (.input (datagram segs))
    have hmoves₂ := hmoves₁.tail (.toRight p₁ q _ hd)
    obtain ⟨hlive₂, -⟩ := h.moves hmoves₂
    have hasked : q₁.kcp.Asked := by
      have hread' : ∀ t ∈ segs, t.Readable q.kcp.conv q.kcp.token := by
        rw [h.peers.right.conv_eq, h.peers.right.token_eq]
        exact hread
      have hsegs : (q.kcp.inputSegs segs).Asked := Kcpcb.inputSegs_asked (.inl ⟨t, ht, hcmd⟩)
      obtain ⟨buf, cwnd, incr, hafter, -⟩ :=
        (q.kcp.inputSegs segs).afterInput_eq q.kcp.sndUna (Kcpcb.maxAcks none segs)
      show (q.kcp.input (datagram segs)).2.Asked
      rw [Kcpcb.input_datagram (List.ne_nil_of_mem ht) hread', hafter]
      exact hsegs
    obtain ⟨q₂, hdrain, hnone, hasked₂⟩ := hlive₂.drain
    have hmoves₃ := hmoves₂.trans hdrain
    obtain ⟨hlive₃, -⟩ := h.moves hmoves₃
    obtain ⟨hshort, -⟩ := hlive₃.peers.next_missing hnone
    have hrecv := hlive₃.aliveRight.recv
    have hmin := hrecv.2.rcvWnd
    -- it tells its window
    obtain ⟨tsFlush, kcp, hkcp, hflush⟩ := flushAt q₂ p₁ 0
    have hopen : kcp.wndUnused.toUInt16.toUInt32 ≠ 0 := by
      rw [hkcp]
      exact Kcpcb.wndUnused_open (show q₂.kcp.rcvQueue.length < q₂.kcp.rcvWnd.toNat by omega) hrecv.1.rcvWnd
    obtain ⟨t', ht'⟩ := Kcpcb.asked_tells (show kcp.Asked by rw [hkcp]; exact hasked₂ hasked)
    obtain ⟨segs', hd', hmem', hsegs', hread⟩ := flushAt_sends hlive₃.peers.right hkcp ht'
    have hmoves₄ := hmoves₃.trans hflush.swap
    obtain ⟨hlive₄, -⟩ := h.moves hmoves₄
    refine ⟨_, _, hmoves₄.tail (.toLeft p₁ _ _ hd'), ?_⟩
    have hread' : ∀ t ∈ segs', t.Readable p₁.kcp.conv p₁.kcp.token := by
      rw [hlive₃.peers.left.conv_eq, hlive₃.peers.left.token_eq]
      exact hread
    have hwnd := Kcpcb.inputSegs_rmtWnd p₁.kcp (List.ne_nil_of_mem hmem') fun t ht =>
      Kcpcb.flushSegs_wnd t (hsegs' t ht)
    obtain ⟨buf, cwnd, incr, hafter, -⟩ :=
      (p₁.kcp.inputSegs segs').afterInput_eq p₁.kcp.sndUna (Kcpcb.maxAcks none segs')
    show (p₁.kcp.input (datagram segs')).2.rmtWnd ≠ 0
    rw [Kcpcb.input_datagram (List.ne_nil_of_mem hmem') hread', hafter]
    exact hwnd ▸ hopen
  · exact ⟨p, q, .refl, hrmt⟩

/-- With an open window what waits is numbered. -/
theorem number (h : Live conv token p q) (hrmt : p.kcp.rmtWnd ≠ 0) (hwait : p.kcp.waitsnd ≠ 0) :
    ∃ p', PeerMoves (p, q) (p', q) ∧ p'.kcp.sndBuf ≠ [] := by
  -- the first flush sees to a congestion window
  obtain ⟨tsFlush, kcp, hkcp, hflush⟩ := flushAt p q 0
  let p₁ : Peer := { p with kcp := kcp.flush.2, out := p.out ++ kcp.flush.1 }
  have hu : kcp.updated = true := by rw [hkcp]
  by_cases hbuf : p₁.kcp.sndBuf = []
  · obtain ⟨tsFlush', kcp', hkcp', hflush'⟩ := flushAt p₁ q 0
    have hu' : kcp'.updated = true := by rw [hkcp']
    obtain ⟨hlive, -⟩ := h.moves hflush
    have hrmt' : p₁.kcp.rmtWnd ≠ 0 := by
      show kcp.flush.2.rmtWnd ≠ 0
      rw [kcp.flush_wnds.2, hkcp]
      exact hrmt
    have hqueue : p₁.kcp.sndQueue ≠ [] := by
      intro hqueue
      have hsame : p₁.kcp.waitsnd = p.kcp.waitsnd := by
        show kcp.flush.2.waitsnd = _
        rw [kcp.flush_waitsnd, hkcp]
        rfl
      rw [Kcpcb.waitsnd, hbuf, hqueue] at hsame
      exact hwait hsame.symm
    have halive : kcp'.Alive := by
      have hleft := hlive.aliveLeft
      rw [hkcp']
      exact ⟨⟨hleft.send.window.congr rfl rfl rfl, hleft.send.sndWnd, hleft.send.rmtWnd⟩, hleft.sndWnd, hleft.recv⟩
    refine ⟨_, hflush.trans hflush', ?_⟩
    have hnum : kcp'.numbered.sndBuf ≠ [] := by
      refine Kcpcb.numbered_ne_nil halive ?_ ?_ ?_ ?_ <;> rw [hkcp']
      · exact hrmt'
      · exact Kcpcb.flush_cwnd hu
      · exact hbuf
      · exact hqueue
    obtain ⟨_, _, _, _, heq⟩ := Kcpcb.flush_eq hu'
    show kcp'.flush.2.sndBuf ≠ []
    rw [heq]
    simpa using hnum
  · exact ⟨p₁, hflush, hbuf⟩

/-! ## All is received -/

/-- The sender can get rid of all that waits. -/
theorem finish (h : Live conv token p q) : ∃ p' q', PeerMoves (p, q) (p', q') ∧ p'.kcp.waitsnd = 0 := by
  generalize hn : p.kcp.waitsnd = n
  induction n using Nat.strong_induction_on generalizing p q with
  | _ n ih =>
    have more : ∀ {p₁ q₁ : Peer}, PeerMoves (p, q) (p₁, q₁) → p₁.kcp.waitsnd < n →
        ∃ p' q', PeerMoves (p, q) (p', q') ∧ p'.kcp.waitsnd = 0 := by
      intro p₁ q₁ hmoves hlt
      obtain ⟨p', q', hmoves', hzero⟩ := ih _ hlt (h.moves hmoves).1 rfl
      exact ⟨p', q', hmoves.trans hmoves', hzero⟩
    by_cases hzero : n = 0
    · exact ⟨p, q, .refl, hn.trans hzero⟩
    obtain ⟨p₁, q₁, hopen, hrmt⟩ := h.openWindow
    obtain ⟨hlive₁, -, -, hwait₁, -⟩ := h.moves hopen
    rcases Nat.lt_or_eq_of_le hwait₁ with hlt | heq
    · exact more hopen (hn ▸ hlt)
    obtain ⟨p₂, hnumber, hbuf⟩ := hlive₁.number hrmt (by omega)
    obtain ⟨hlive₂, -, -, hwait₂, -⟩ := hlive₁.moves hnumber
    cases hseg : p₂.kcp.sndBuf with
    | nil => exact absurd hseg hbuf
    | cons s rest =>
      obtain ⟨p₃, q₃, hresend, hlt⟩ := hlive₂.resend hseg
      exact more (hopen.trans (hnumber.trans hresend)) (by omega)

/-- Both ends can go on until all that was accepted is received. -/
theorem finish_both (h : Live conv token p q) :
    ∃ p' q', PeerMoves (p, q) (p', q') ∧ p'.accepted = p.accepted ∧ q'.accepted = q.accepted ∧
      q'.received = p.accepted ∧ p'.received = q.accepted := by
  obtain ⟨p₁, q₁, hmoves₁, hzero₁⟩ := h.finish
  obtain ⟨hlive₁, -⟩ := h.moves hmoves₁
  obtain ⟨q₂, p₂, hmoves₂, hzero₂⟩ := hlive₁.symm.finish
  obtain ⟨hlive₂, -, -, -, hwait₂⟩ := hlive₁.symm.moves hmoves₂
  obtain ⟨q₃, hdrain, hnone, -⟩ := hlive₂.symm.drain
  obtain ⟨hlive₃, -⟩ := hlive₂.symm.moves hdrain
  obtain ⟨p₃, hdrain', hnone', -⟩ := hlive₃.symm.drain
  have hall : PeerMoves (p, q) (p₃, q₃) := ((hmoves₁.trans hmoves₂.swap).trans hdrain).trans hdrain'.swap
  obtain ⟨hlive, hacc, hacc', -, -⟩ := h.moves hall
  obtain ⟨-, -, -, hp₃, -⟩ := hlive₂.symm.moves (hdrain.trans hdrain'.swap)
  obtain ⟨-, -, -, -, hq₃⟩ := hlive₂.symm.moves (hdrain.trans hdrain'.swap)
  have hforth := hlive.peers.all_received hlive.left (by omega) hnone
  have hback := hlive.peers.symm.all_received hlive.right (by omega) hnone'
  exact ⟨p₃, q₃, hall, hacc, hacc', hforth.trans hacc, hback.trans hacc'⟩

end Live

/-- A step of the link without a new message: an arrival, or a call the ends go on with. -/
def KcpLinkAct.Quiet : KcpLinkAct → Prop
  | .callA act _ => act.Quiet
  | .callB act _ => act.Quiet
  | _ => True

/-- A receive window is set below 65536. -/
def KcpLinkAct.WndFits : KcpLinkAct → Prop
  | .callA act _ => Kcpcb.RcvWndLe 65535 act
  | .callB act _ => Kcpcb.RcvWndLe 65535 act
  | _ => True

namespace KcpLink

theorem quiet_local {a : KcpAct} (h : a.Quiet) : a.Local := by
  cases a with
  | send buffer len => exact h.elim
  | setmtu mtu => exact h.elim
  | recv len => exact h
  | input d => exact h
  | _ => trivial

/-- The moves of the two ends are steps of the link. -/
theorem run_moves {link : KcpLink} {pq : Peer × Peer} (h : PeerMoves (link.a, link.b) pq) :
    ∃ acts : List KcpLinkAct, (∀ act ∈ acts, act.Quiet) ∧ link.run acts = ⟨pq.1, pq.2⟩ := by
  induction h with
  | refl => exact ⟨[], by simp, rfl⟩
  | tail _ hm ih =>
    obtain ⟨acts, hquiet, hrun⟩ := ih
    have extend : ∀ (act : KcpLinkAct) {link' : KcpLink}, act.Quiet → (step (link.run acts) act).1 = link' →
        ∃ acts : List KcpLinkAct, (∀ act ∈ acts, act.Quiet) ∧ link.run acts = link' := by
      intro act link' hact hstep
      refine ⟨acts ++ [act], fun x hx => ?_, ?_⟩
      · rcases List.mem_append.mp hx with hx | hx
        · exact hquiet x hx
        · obtain rfl := List.mem_singleton.mp hx
          exact hact
      · rw [← hstep]
        exact Runs.final_concat _ _ _
    have harrive : ∀ {p q : Peer} {d : Bytes}, d ∈ q.out → ∃ i, arrive p q i = p.step (.input d) := by
      intro p q d hd
      obtain ⟨i, hi⟩ := List.mem_iff_getElem?.mp hd
      exact ⟨i, by rw [arrive, hi]⟩
    cases hm with
    | callLeft p q a ha => exact extend (.callA a (quiet_local ha)) ha (by rw [hrun]; rfl)
    | callRight p q a ha => exact extend (.callB a (quiet_local ha)) ha (by rw [hrun]; rfl)
    | toLeft p q d hd =>
      obtain ⟨i, hi⟩ := harrive (p := p) hd
      exact extend (.toA i) trivial (by rw [hrun, step]; exact congrArg (KcpLink.mk · q) hi)
    | toRight p q d hd =>
      obtain ⟨i, hi⟩ := harrive (p := q) hd
      exact extend (.toB i) trivial (by rw [hrun, step]; exact congrArg (KcpLink.mk p) hi)

theorem arrive_alive {p : Peer} (h : p.kcp.Alive) (q : Peer) (i : Nat) : (arrive p q i).kcp.Alive := by
  unfold arrive
  split
  next d _ => exact h.step (show Kcpcb.RcvWndLe 65535 (.input d) from trivial)
  · exact h

theorem run_alive (conv token : UInt32) (acts : List KcpLinkAct) (hwnd : ∀ act ∈ acts, act.WndFits) :
    ((start conv token).run acts).a.kcp.Alive ∧ ((start conv token).run acts).b.kcp.Alive := by
  have hall : Runs.AllSteps step (fun _ act => act.WndFits) (start conv token) acts := by
    refine Runs.allSteps_iff.mpr ?_
    rintro pre act post rfl
    exact hwnd act (by simp)
  refine Runs.inv_of_allSteps (fun link : KcpLink => link.a.kcp.Alive ∧ link.b.kcp.Alive)
    (fun link act h hact => ?_) ⟨.create conv token, .create conv token⟩ hall
  cases act with
  | callA act _ => exact ⟨h.1.step hact, h.2⟩
  | callB act _ => exact ⟨h.1, h.2.step hact⟩
  | toA i => exact ⟨arrive_alive h.1 _ i, h.2⟩
  | toB i => exact ⟨h.1, arrive_alive h.2 _ i⟩

theorem quiet_settled {act : KcpLinkAct} (h : act.Quiet) (link : KcpLink) : link.Settled act := by
  cases act with
  | callA act _ => cases act <;> trivial
  | callB act _ => cases act <;> trivial
  | _ => trivial

/-- **KCP does not get stuck**. After any run, whatever the network lost, kept or reordered, the ends and
the network can go on, without another message and without leaving a buffer, until both ends have received
all that was accepted. -/
theorem can_finish (conv token : UInt32) (acts : List KcpLinkAct) (hwnd : ∀ act ∈ acts, act.WndFits)
    (hs : ((start conv token).run acts).Short) (hmtu : Runs.AllSteps step Settled (start conv token) acts) :
    ∃ more : List KcpLinkAct, (∀ act ∈ more, act.Quiet) ∧
      let link := (start conv token).run acts
      let link' := link.run more
      link'.InBounds ∧ link'.a.accepted = link.a.accepted ∧ link'.b.accepted = link.b.accepted ∧
        link'.b.received = link.a.accepted ∧ link'.a.received = link.b.accepted := by
  obtain ⟨halive, halive'⟩ := run_alive conv token acts hwnd
  have hlive : Live conv token _ _ := ⟨run_peers conv token acts hs, hs.1, hs.2, halive, halive'⟩
  obtain ⟨p, q, hmoves, hacc, hacc', hforth, hback⟩ := hlive.finish_both
  obtain ⟨more, hquiet, hrun⟩ := run_moves hmoves
  have hall : (start conv token).run (acts ++ more) = ⟨p, q⟩ := (Runs.final_append _ _ _).trans hrun
  have hin : (⟨p, q⟩ : KcpLink).InBounds := by
    obtain ⟨hlive', -⟩ := hlive.moves hmoves
    rw [← hall]
    refine run_inBounds conv token _ ?_ (Runs.allSteps_append.mpr ⟨hmtu, Runs.allSteps_iff.mpr ?_⟩)
    · rw [hall]
      exact ⟨hlive'.left, hlive'.right⟩
    · rintro pre act post rfl
      exact quiet_settled (hquiet act (by simp)) _
  refine ⟨more, hquiet, ?_⟩
  dsimp only
  rw [hrun]
  exact ⟨hin, hacc, hacc', hforth, hback⟩

/-- A has sent a message of which nothing arrived. -/
theorem can_finish_sample :
    let acts : List KcpLinkAct :=
      [.callA (.update 0) trivial, .callA (.send [7, 8, 9] 3) (by decide), .callA .flush trivial]
    ∃ more : List KcpLinkAct, (∀ act ∈ more, act.Quiet) ∧
      let link := (start 5 6).run acts
      let link' := link.run more
      link'.InBounds ∧ link'.a.accepted = link.a.accepted ∧ link'.b.accepted = link.b.accepted ∧
        link'.b.received = link.a.accepted ∧ link'.a.received = link.b.accepted :=
  can_finish 5 6 _ (by simp [KcpLinkAct.WndFits, Kcpcb.RcvWndLe]) ⟨by decide +kernel, by decide +kernel⟩
    ⟨trivial, trivial, trivial, trivial⟩

end KcpLink

end EyPS
