/-
What KCP guarantees over a network that loses, repeats and reorders: each way a link is
selective repeat, so what one end receives is the beginning of what the other one's
`ikcp_send` accepted, message by message; no fragment is ever lost; and once
`ikcp_waitsnd` is 0 and nothing is left to receive, all of it has arrived.
-/
import EyPS.KcpReceiver

namespace EyPS

theorem headMessage_of_peeksize {cb : Ikcpcb} (h : ikcpPeeksize cb < 0) : headMessage cb.rcvQueue = none := by
  have hpeek := ikcpPeeksize_eq cb
  cases hm : headMessage cb.rcvQueue with
  | none => rfl
  | some m =>
    simp only [hm] at hpeek
    have := Int.natCast_nonneg m.length
    omega

/-- `p`'s messages to `q` travel as selective repeat carries items. -/
def Refines (conv token : UInt32) (p q : Peer) : Prop :=
  ∃ l, Arq.Steps .init l ∧ Carries conv token p q l

/-- Two ends of one link. -/
structure Peers (conv token : UInt32) (p q : Peer) : Prop where
  left : p.Ok conv token
  right : q.Ok conv token
  forth : Refines conv token p q
  back : Refines conv token q p
  framedLeft : Fragments p.taken p.received
  framedRight : Fragments q.taken q.received
  recvLeft : Kcpcb.RecvOk (2 ^ 31 - 1) p.kcp.toIkcpcb
  recvRight : Kcpcb.RecvOk (2 ^ 31 - 1) q.kcp.toIkcpcb

namespace Peers

variable {conv token : UInt32} {p q : Peer}

theorem symm (h : Peers conv token p q) : Peers conv token q p :=
  ⟨h.right, h.left, h.back, h.forth, h.framedRight, h.framedLeft, h.recvRight, h.recvLeft⟩

theorem new (conv token : UInt32) : Peers conv token (.new conv token) (.new conv token) :=
  have hrecv := Kcpcb.recvOk_create (W := 2 ^ 31 - 1) (by decide) conv token
  ⟨.new conv token, .new conv token, ⟨.init, .refl, .start conv token⟩, ⟨.init, .refl, .start conv token⟩, .nil, .nil,
    hrecv, hrecv⟩

end Peers

/-- What `q` took out and what it has in `rcv_queue` is the beginning of what `p` queued. -/
theorem Refines.stream {conv token : UInt32} {p q : Peer} (h : Refines conv token p q) :
    ∃ more, p.queued = q.taken ++ (q.kcp.rcvQueue.map Seg.fragment ++ more) := by
  obtain ⟨l, hsteps, hc⟩ := h
  obtain ⟨rest, hlog⟩ := (Arq.Link.Inv.init.steps hsteps).delivered
  refine ⟨rest ++ p.kcp.sndQueue, ?_⟩
  rw [hc.queued, ← hlog, hc.delivered]
  simp only [List.append_assoc]

/-- What was received is a beginning of what was accepted, and behind it stands the stream of the rest. -/
theorem Refines.received {conv token : UInt32} {p q : Peer} (h : Refines conv token p q) (hp : p.Ok conv token)
    (hq : Fragments q.taken q.received) :
    ∃ more ms, p.queued = q.taken ++ (q.kcp.rcvQueue.map Seg.fragment ++ more) ∧ p.accepted = q.received ++ ms ∧
      Fragments (q.kcp.rcvQueue.map Seg.fragment ++ more) ms := by
  obtain ⟨more, hmore⟩ := h.stream
  have hframed := hp.framed
  rw [hmore] at hframed
  obtain ⟨ms, haccepted, hms⟩ := hq.split hframed
  exact ⟨more, ms, hmore, haccepted, hms⟩

namespace Peers

variable {conv token : UInt32} {p q : Peer}

/-- What a call takes out is whole messages. -/
theorem framed_step (h : Peers conv token p q) (a : KcpAct) :
    Fragments (p.step a).taken (p.step a).received := by
  have same : ∀ a, Peer.returns p.kcp a = [] → Fragments (p.step a).taken (p.step a).received := by
    intro a hreturns
    have htaken : (p.step a).taken = p.taken := by simp [Peer.step, Peer.takes, hreturns]
    have hreceived : (p.step a).received = p.received := by simp [Peer.step, hreturns]
    rw [htaken, hreceived]
    exact h.framedLeft
  cases a with
  | recv len =>
    obtain ⟨probe, heq | heq | ⟨m, hm, heq⟩⟩ := p.recv_cases len
    · rw [heq]
      exact h.framedLeft
    · rw [heq]
      exact h.framedLeft
    · obtain ⟨more, ms, -, -, hms⟩ := h.back.received h.right h.framedLeft
      obtain ⟨ms', -, hone, -⟩ := headMessage_fragments hms hm
      rw [heq]
      exact h.framedLeft.append hone
  | _ => exact same _ rfl

theorem step (h : Peers conv token p q) {a : KcpAct} (ha : a.From q) (hp : p.queued.length < 2 ^ 31)
    (hq : q.queued.length < 2 ^ 31) : Peers conv token (p.step a) q := by
  refine ⟨h.left.step a, h.right, ?_, ?_, h.framed_step a, h.framedRight, ?_, h.recvRight⟩
  · obtain ⟨l, hsteps, hc⟩ := h.forth
    obtain ⟨l', hsteps', hc'⟩ := hc.step_left (Arq.Link.Inv.init.steps hsteps) h.left ha hp
    exact ⟨l', hsteps.trans hsteps', hc'⟩
  · obtain ⟨l, hsteps, hc⟩ := h.back
    obtain ⟨l', hsteps', hc'⟩ := hc.step_right (Arq.Link.Inv.init.steps hsteps) h.left ha hq
    exact ⟨l', hsteps.trans hsteps', hc'⟩
  · have hwnd : Kcpcb.RcvWndLe (2 ^ 31 - 1) a := by
      cases a with
      | wndsize sndwnd rcvwnd =>
        have hlt := rcvwnd.toInt_lt
        show rcvwnd.toInt ≤ ((2 ^ 31 - 1 : Nat) : Int)
        omega
      | _ => trivial
    exact Kcpcb.step_recvOk (by decide) (by decide) h.recvLeft hwnd

/-! ## What has become of a fragment -/

/-- A numbered fragment that `p` queued is delivered, has arrived early, is kept for sending again or
was not numbered yet. -/
def Accounted (p q : Peer) (n : Nat) (f : Fragment) : Prop :=
  (q.taken ++ q.kcp.rcvQueue.map Seg.fragment)[n]? = some f ∨
  (∃ s ∈ q.kcp.rcvBuf, s.sn.toNat = n ∧ s.fragment = f) ∨
  (∃ s ∈ p.kcp.inFlight, s.sn.toNat = n ∧ s.fragment = f) ∨
  ∃ i, n = p.kcp.sndNxt.toNat + i ∧ p.kcp.sndQueue[i]? = some f

theorem accounted (h : Peers conv token p q) (hp : p.queued.length < 2 ^ 31) {n : Nat} {f : Fragment}
    (hf : p.queued[n]? = some f) : Accounted p q n f := by
  obtain ⟨l, hsteps, hc⟩ := h.forth
  have hl := Arq.Link.Inv.init.steps hsteps
  have hlog := hc.log_length_le
  rw [hc.queued] at hf
  by_cases hn : n < l.log.length
  · rw [List.getElem?_append_left hn] at hf
    by_cases hkept : n ∈ l.kept
    · obtain ⟨s, hs, rfl⟩ := (hc.kept n).mp hkept
      have hsent := hc.sent s hs
      rw [hf, Option.some.injEq] at hsent
      exact .inr (.inr (.inl ⟨s, hs, rfl, hsent.symm⟩))
    · rcases hc.arrived n (hl.kept n hn hkept) with hdelivered | ⟨s, hs, rfl⟩
      · obtain ⟨rest, hrest⟩ := hl.delivered
        rw [← hrest, List.getElem?_append_left hdelivered] at hf
        exact .inl (hc.delivered ▸ hf)
      · have hs' := hl.received _ _ (hc.early s hs)
        rw [hf, Option.some.injEq] at hs'
        exact .inr (.inl ⟨s, hs, rfl, hs'.symm⟩)
  · rw [List.getElem?_append_right (Nat.not_lt.mp hn)] at hf
    have hnxt : p.kcp.sndNxt.toNat = l.log.length := by rw [hc.sndNxt, toNat_ofNat_of_lt (by omega)]
    exact .inr (.inr (.inr ⟨n - l.log.length, by omega, hf⟩))

/-! ## When all has arrived -/

/-- Less than a message at the head of `rcv_queue`: what is there is short, and the next segment is not here. -/
theorem next_missing (h : Peers conv token p q) (hnone : headMessage q.kcp.rcvQueue = none) :
    q.kcp.rcvQueue.length < 128 ∧ ∀ s ∈ q.kcp.rcvBuf, s.sn ≠ q.kcp.rcvNxt := by
  have hshort : q.kcp.rcvQueue.length < 128 := by
    cases hqueue : q.kcp.rcvQueue with
    | nil => decide
    | cons seg rest =>
      obtain ⟨more, hmore⟩ := h.forth.stream
      have hfrg : seg.frg < 128 := by
        refine h.left.frg_lt seg.fragment ?_
        rw [hmore, hqueue]
        simp
      rw [hqueue, headMessage] at hnone
      split at hnone
      next hlt =>
        rw [List.length_cons]
        omega
      · cases hnone
  refine ⟨hshort, fun s hs hsn => ?_⟩
  have hfull := h.recvRight.2.full s hs hsn
  omega

/-- With nothing left to send and nothing to receive, all has been received. -/
theorem all_received (h : Peers conv token p q) (hp : p.queued.length < 2 ^ 31) (hwait : p.kcp.waitsnd = 0)
    (hnone : headMessage q.kcp.rcvQueue = none) : q.received = p.accepted := by
  obtain ⟨hshort, hmissing⟩ := h.next_missing hnone
  obtain ⟨hbuf, hqueue⟩ := Nat.add_eq_zero_iff.mp hwait
  rw [List.length_eq_zero_iff] at hbuf hqueue
  obtain ⟨l, hsteps, hc⟩ := h.forth
  have hl := Arq.Link.Inv.init.steps hsteps
  have hlog := hc.log_length_le
  have hle := hl.delivered.length_le
  -- nothing is kept, so the next number would have arrived
  have hall : l.log.length ≤ l.delivered.length := by
    by_contra hlt
    have hnext : l.Arrived l.delivered.length := by
      refine hl.kept _ (Nat.not_le.mp hlt) fun hk => ?_
      obtain ⟨s, hs, -⟩ := (hc.kept _).mp hk
      simp [Kcpcb.inFlight, hbuf] at hs
    rcases hc.arrived _ hnext with hlt | ⟨s, hs, hsn⟩
    · omega
    · refine hmissing s hs (UInt32.toNat_inj.mp ?_)
      rw [hsn, hc.rcvNxt, toNat_ofNat_of_lt (by omega)]
  have hqueued : p.queued = q.taken ++ q.kcp.rcvQueue.map Seg.fragment := by
    rw [hc.queued, hqueue, List.append_nil, ← hl.delivered_eq_log hall, hc.delivered]
  have hframed := h.left.framed
  rw [hqueued] at hframed
  obtain ⟨ms, haccepted, hms⟩ := h.framedRight.split hframed
  have hempty : ms = [] := by
    cases hrest : q.kcp.rcvQueue with
    | nil =>
      rw [hrest] at hms
      exact hms.eq_nil
    | cons seg rest =>
      -- what is in the queue would be a whole message
      rw [hrest] at hms hnone
      have hlen : seg.frg ≤ (rest.map Seg.fragment).length := hms.left_le
      rw [List.length_map] at hlen
      rw [headMessage, if_neg (Nat.not_lt.mpr hlen)] at hnone
      cases hnone
  rw [haccepted, hempty, List.append_nil]

end Peers

/-! ## Calls that C defines -/

/-- All that `p` does is defined in C: what it has to send is cut for its MTU and its buffer, and so is
what it put out. -/
structure Peer.Defined (p : Peer) : Prop where
  sized : p.kcp.Sized
  out : ∀ d ∈ p.out, d.length < 2 ^ 30

theorem Peer.Defined.new (conv token : UInt32) : (Peer.new conv token).Defined :=
  ⟨.create conv token, List.forall_mem_nil _⟩

theorem Peer.Defined.step {p : Peer} (h : p.Defined) {a : KcpAct} (ha : p.kcp.Sound a) : (p.step a).Defined := by
  refine ⟨h.sized.step ha, fun d hd => ?_⟩
  rcases List.mem_append.mp hd with hd | hd
  · exact h.out d hd
  · exact Nat.lt_of_le_of_lt (h.sized.datagramsFit a d hd).2 h.sized.mtu_lt

namespace Peers

variable {conv token : UInt32} {p q : Peer}

/-- What stands at the head of `rcv_queue` is no longer than a message that was accepted. -/
theorem head_lt (h : Peers conv token p q) : fragmentsLength p.kcp.rcvQueue < 2 ^ 31 := by
  obtain ⟨more, ms, -, haccepted, hms⟩ := h.back.received h.right h.framedLeft
  refine fragmentsLength_lt hms (by decide) fun m hm => h.right.accepted_lt m ?_
  rw [haccepted]
  exact List.mem_append_right _ hm

theorem sound (h : Peers conv token p q) {a : KcpAct} (hact : a.Local) (hmtu : p.kcp.MtuSettled a) :
    p.kcp.Sound a := by
  cases a with
  | recv len => exact ⟨hact, h.head_lt⟩
  | input d => exact hact.elim
  | setmtu mtu => exact ⟨hact, hmtu⟩
  | _ => exact hact

theorem sound_input (p : Peer) (hq : q.Defined) {d : Bytes} (hd : d ∈ q.out) : p.kcp.Sound (.input d) :=
  Nat.lt_trans (hq.out d hd) (by decide)

end Peers

namespace KcpLink

/-! ## Runs -/

/-- Neither end has queued more fragments than the sequence numbers tell apart. -/
def Short (link : KcpLink) : Prop := link.a.queued.length < 2 ^ 31 ∧ link.b.queued.length < 2 ^ 31

theorem local_from {a : KcpAct} (h : a.Local) (q : Peer) : a.From q := by
  cases a with
  | input d => exact h.elim
  | _ => trivial

/-- `queued` only grows. -/
theorem short_of_step {link : KcpLink} {act : KcpLinkAct} (h : (link.step act).1.Short) : link.Short := by
  have hle : ∀ (p : Peer) a, p.queued.length ≤ (p.step a).queued.length := by
    intro p a
    rw [Peer.step, List.length_append]
    exact Nat.le_add_right _ _
  have harrive : ∀ (p q : Peer) i, p.queued.length ≤ (arrive p q i).queued.length := by
    intro p q i
    unfold arrive
    split
    · exact hle _ _
    · exact Nat.le_refl _
  cases act with
  | callA act hact => exact ⟨Nat.lt_of_le_of_lt (hle _ act) h.1, h.2⟩
  | callB act hact => exact ⟨h.1, Nat.lt_of_le_of_lt (hle _ act) h.2⟩
  | toA i => exact ⟨Nat.lt_of_le_of_lt (harrive _ _ i) h.1, h.2⟩
  | toB i => exact ⟨h.1, Nat.lt_of_le_of_lt (harrive _ _ i) h.2⟩

theorem arrive_peers {conv token : UInt32} {p q : Peer} (h : Peers conv token p q) (hp : p.queued.length < 2 ^ 31)
    (hq : q.queued.length < 2 ^ 31) (i : Nat) : Peers conv token (arrive p q i) q := by
  unfold arrive
  split
  next d hd => exact h.step (List.mem_of_getElem? hd) hp hq
  · exact h

theorem step_peers {conv token : UInt32} {link : KcpLink} (h : Peers conv token link.a link.b) (hs : link.Short)
    (act : KcpLinkAct) : Peers conv token (link.step act).1.a (link.step act).1.b := by
  cases act with
  | callA act hact => exact h.step (local_from hact _) hs.1 hs.2
  | callB act hact => exact (h.symm.step (local_from hact _) hs.2 hs.1).symm
  | toA i => exact arrive_peers h hs.1 hs.2 i
  | toB i => exact (arrive_peers h.symm hs.2 hs.1 i).symm

theorem run_peers (conv token : UInt32) (acts : List KcpLinkAct) (hs : ((start conv token).run acts).Short) :
    Peers conv token ((start conv token).run acts).a ((start conv token).run acts).b := by
  induction acts using List.reverseRecOn with
  | nil => exact .new conv token
  | append_singleton acts act ih =>
    rw [run, Runs.final_concat] at hs ⊢
    have hshort := short_of_step hs
    exact step_peers (ih hshort) hshort act

theorem step_defined {conv token : UInt32} {link : KcpLink} (h : Peers conv token link.a link.b)
    (ha : link.a.Defined) (hb : link.b.Defined) {act : KcpLinkAct} (hmtu : link.Settled act) :
    (link.step act).1.a.Defined ∧ (link.step act).1.b.Defined := by
  have harrive : ∀ {p q : Peer}, p.Defined → q.Defined → ∀ i, (arrive p q i).Defined := by
    intro p q hp hq i
    unfold arrive
    split
    next d hd => exact hp.step (Peers.sound_input p hq (List.mem_of_getElem? hd))
    · exact hp
  cases act with
  | callA act hact => exact ⟨ha.step (h.sound hact hmtu), hb⟩
  | callB act hact => exact ⟨ha, hb.step (h.symm.sound hact hmtu)⟩
  | toA i => exact ⟨harrive ha hb i, hb⟩
  | toB i => exact ⟨ha, harrive hb ha i⟩

theorem run_defined (conv token : UInt32) (acts : List KcpLinkAct) (hs : ((start conv token).run acts).Short)
    (hmtu : Runs.AllSteps step Settled (start conv token) acts) :
    ((start conv token).run acts).a.Defined ∧ ((start conv token).run acts).b.Defined := by
  induction acts using List.reverseRecOn with
  | nil => exact ⟨.new conv token, .new conv token⟩
  | append_singleton acts act ih =>
    obtain ⟨hmtu, hlast, -⟩ := Runs.allSteps_append.mp hmtu
    rw [run, Runs.final_concat] at hs ⊢
    have hshort := short_of_step hs
    obtain ⟨ha, hb⟩ := ih hshort hmtu
    exact step_defined (run_peers conv token acts hshort) ha hb hlast

/-- No write leaves a buffer, where no end changes its MTU while something waits there. -/
theorem run_inBounds (conv token : UInt32) (acts : List KcpLinkAct) (hs : ((start conv token).run acts).Short)
    (hmtu : Runs.AllSteps step Settled (start conv token) acts) : ((start conv token).run acts).InBounds := by
  obtain ⟨ha, hb⟩ := run_defined conv token acts hs hmtu
  exact ⟨ha.sized.overrun, hb.sized.overrun⟩

/-! ## The results -/

/-- A sends two fragments, B gets them in the wrong order and one of them twice, and acknowledges. -/
def sample : List KcpLinkAct :=
  [.callA (.nodelay 1 10 2 1) trivial, .callA (.setmtu 50) (by decide), .callA (.update 0) trivial,
    .callA (.send (List.replicate 30 7) 30) (by decide), .callA .flush trivial, .toB 1, .toB 1, .toB 0,
    .callB (.recv 100) (by decide), .callB (.update 0) trivial, .toA 0]

theorem sample_short : ((start 5 6).run sample).Short := ⟨by decide +kernel, by decide +kernel⟩

theorem sample_settled : Runs.AllSteps step Settled (start 5 6) sample :=
  ⟨trivial, rfl, trivial, trivial, trivial, trivial, trivial, trivial, trivial, trivial, trivial, trivial⟩

/-- **KCP is selective repeat**. After any run of the two ends and the network that changes an MTU only
while nothing waits, no write has left a buffer, and each way the link is a state that selective repeat
reaches. -/
theorem refines_arq (conv token : UInt32) (acts : List KcpLinkAct) (hs : ((start conv token).run acts).Short)
    (hmtu : Runs.AllSteps step Settled (start conv token) acts) :
    let link := (start conv token).run acts
    link.InBounds ∧ Refines conv token link.a link.b ∧ Refines conv token link.b link.a :=
  have h := run_peers conv token acts hs
  ⟨run_inBounds conv token acts hs hmtu, h.forth, h.back⟩

theorem refines_arq_sample :
    let link := (start 5 6).run sample
    link.InBounds ∧ Refines 5 6 link.a link.b ∧ Refines 5 6 link.b link.a :=
  refines_arq 5 6 sample sample_short sample_settled

/-- **What is received is what was sent, from the first message on**: none is lost from the middle, none
comes twice, out of its turn, cut or joined. -/
theorem received_prefix (conv token : UInt32) (acts : List KcpLinkAct) (hs : ((start conv token).run acts).Short)
    (hmtu : Runs.AllSteps step Settled (start conv token) acts) :
    let link := (start conv token).run acts
    link.InBounds ∧ link.b.received <+: link.a.accepted ∧ link.a.received <+: link.b.accepted := by
  have h := run_peers conv token acts hs
  obtain ⟨-, ms, -, hforth, -⟩ := h.forth.received h.left h.framedRight
  obtain ⟨-, ms', -, hback, -⟩ := h.back.received h.right h.framedLeft
  exact ⟨run_inBounds conv token acts hs hmtu, ⟨ms, hforth.symm⟩, ⟨ms', hback.symm⟩⟩

theorem received_prefix_sample :
    let link := (start 5 6).run sample
    link.InBounds ∧ link.b.received <+: link.a.accepted ∧ link.a.received <+: link.b.accepted :=
  received_prefix 5 6 sample sample_short sample_settled

/-- **No fragment is lost**, whatever the network does: under its number it is delivered, held by the
receiver, kept by the sender or not yet numbered. -/
theorem all_accounted (conv token : UInt32) (acts : List KcpLinkAct) (hs : ((start conv token).run acts).Short)
    (hmtu : Runs.AllSteps step Settled (start conv token) acts) :
    let link := (start conv token).run acts
    link.InBounds ∧ (∀ n f, link.a.queued[n]? = some f → Peers.Accounted link.a link.b n f) ∧
      ∀ n f, link.b.queued[n]? = some f → Peers.Accounted link.b link.a n f := by
  have h := run_peers conv token acts hs
  exact ⟨run_inBounds conv token acts hs hmtu, fun _ _ => h.accounted hs.1, fun _ _ => h.symm.accounted hs.2⟩

theorem all_accounted_sample :
    let link := (start 5 6).run sample
    link.InBounds ∧ (∀ n f, link.a.queued[n]? = some f → Peers.Accounted link.a link.b n f) ∧
      ∀ n f, link.b.queued[n]? = some f → Peers.Accounted link.b link.a n f :=
  all_accounted 5 6 sample sample_short sample_settled

/-- **When all has arrived**: `ikcp_waitsnd` is 0 at one end and `ikcp_peeksize` finds no message at the
other one only after every message accepted was received. -/
theorem received_all (conv token : UInt32) (acts : List KcpLinkAct) (hs : ((start conv token).run acts).Short)
    (hmtu : Runs.AllSteps step Settled (start conv token) acts) :
    let link := (start conv token).run acts
    link.InBounds ∧
      (link.a.kcp.waitsnd = 0 → ikcpPeeksize link.b.kcp.toIkcpcb < 0 → link.b.received = link.a.accepted) ∧
      (link.b.kcp.waitsnd = 0 → ikcpPeeksize link.a.kcp.toIkcpcb < 0 → link.a.received = link.b.accepted) := by
  have h := run_peers conv token acts hs
  exact ⟨run_inBounds conv token acts hs hmtu,
    fun hwait hpeek => h.all_received hs.1 hwait (headMessage_of_peeksize hpeek),
    fun hwait hpeek => h.symm.all_received hs.2 hwait (headMessage_of_peeksize hpeek)⟩

/-- There the message has arrived, and A knows it. -/
theorem received_all_sample : ((start 5 6).run sample).b.received = ((start 5 6).run sample).a.accepted :=
  (received_all 5 6 sample sample_short sample_settled).2.1 (by decide +kernel) (by decide +kernel)

end KcpLink

end EyPS
