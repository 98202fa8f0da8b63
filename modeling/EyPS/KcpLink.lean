/-
Two KCP control blocks and the network between them. Each end is called in any order; the
network delivers any datagram that was ever put out, any number of times, in any order, or
never. It makes up none.

Beside its control block an end records the datagrams it put out, the messages `ikcp_send`
accepted and those `ikcp_recv` returned. Two more lists are there for the proofs only: the
fragments that ever entered `snd_queue`, and those that left `rcv_queue`.
-/
import EyPS.Arq
import EyPS.Fragments
import EyPS.KcpDatagrams
import EyPS.RecvWindow

namespace EyPS

/-! ## Ends, network, steps -/

structure Peer where
  kcp : Kcpcb
  out : List Bytes
  accepted : List Bytes
  received : List Bytes
  queued : List Fragment
  taken : List Fragment

namespace Peer

def new (conv token : UInt32) : Peer := ⟨.create conv token, [], [], [], [], []⟩

/-- The message a call gets accepted. -/
def accepts (kcp : Kcpcb) : KcpAct → List Bytes
  | .send buffer len => if (kcp.send buffer len.toInt).1 = 0 then [buffer.take len.toInt.toNat] else []
  | _ => []

/-- The message a call returns and takes out. With a negative length `ikcp_recv` only peeks. -/
def returns (kcp : Kcpcb) : KcpAct → List Bytes
  | .recv len => if 0 ≤ (kcp.recv len.toInt).1 ∧ 0 ≤ len.toInt then [(kcp.recv len.toInt).2.1] else []
  | _ => []

/-- The fragments a call takes out of `rcv_queue`. -/
def takes (kcp : Kcpcb) (a : KcpAct) : List Fragment :=
  if returns kcp a = [] then [] else (headFragments kcp.rcvQueue).map Seg.fragment

/-- A call made on an end. -/
def step (p : Peer) (a : KcpAct) : Peer where
  kcp := (p.kcp.step a).1
  out := p.out ++ (p.kcp.step a).2
  accepted := p.accepted ++ accepts p.kcp a
  received := p.received ++ returns p.kcp a
  queued := p.queued ++ (if accepts p.kcp a = [] then [] else (p.kcp.step a).1.sndQueue.drop p.kcp.sndQueue.length)
  taken := p.taken ++ takes p.kcp a

end Peer

/-- A call that is not an arrival, with arguments that C takes. -/
def KcpAct.Local : KcpAct → Prop
  | .send buffer len => len.toInt ≤ buffer.length
  | .recv len => len ≠ Int32.minValue
  | .input _ => False
  | .setmtu mtu => mtu.toInt < 2 ^ 30
  | _ => True

instance : DecidablePred KcpAct.Local
  | .send buffer len => inferInstanceAs (Decidable (len.toInt ≤ buffer.length))
  | .recv len => inferInstanceAs (Decidable (len ≠ Int32.minValue))
  | .input _ => isFalse id
  | .setmtu mtu => inferInstanceAs (Decidable (mtu.toInt < 2 ^ 30))
  | .update _ | .flush | .nodelay _ _ _ _ | .wndsize _ _ | .interval _ => isTrue trivial

/-- `ikcp_setmtu` is called while nothing waits to be sent. -/
def Kcpcb.MtuSettled (kcp : Kcpcb) : KcpAct → Prop
  | .setmtu _ => kcp.waitsnd = 0
  | _ => True

/-- The two ends. -/
structure KcpLink where
  a : Peer
  b : Peer

/-- A call at one end, or the arrival of a datagram the other one put out. -/
inductive KcpLinkAct
  | callA (act : KcpAct) (h : act.Local)
  | callB (act : KcpAct) (h : act.Local)
  | toA (i : Nat)
  | toB (i : Nat)

namespace KcpLink

/-- Both ends as they are created, under the same ids. -/
def start (conv token : UInt32) : KcpLink := ⟨.new conv token, .new conv token⟩

/-- Of `p`, when the `i`-th datagram that `q` put out arrives. -/
def arrive (p q : Peer) (i : Nat) : Peer :=
  match q.out[i]? with
  | some d => p.step (.input d)
  | none => p

def step (l : KcpLink) : KcpLinkAct → KcpLink × List Unit
  | .callA act _ => (⟨l.a.step act, l.b⟩, [])
  | .callB act _ => (⟨l.a, l.b.step act⟩, [])
  | .toA i => (⟨arrive l.a l.b i, l.b⟩, [])
  | .toB i => (⟨l.a, arrive l.b l.a i⟩, [])

/-- Neither end changes its MTU while something waits there. -/
def Settled (l : KcpLink) : KcpLinkAct → Prop
  | .callA act _ => l.a.kcp.MtuSettled act
  | .callB act _ => l.b.kcp.MtuSettled act
  | _ => True

/-- No write has left the buffer of an end. -/
def InBounds (l : KcpLink) : Prop := l.a.kcp.overrun = false ∧ l.b.kcp.overrun = false

/-- The link after a run. -/
def run (l : KcpLink) (acts : List KcpLinkAct) : KcpLink := Runs.final step l acts

end KcpLink

/-! ## What every end keeps to itself -/

/-- A PUSH segment under these ids, as one datagram can carry it. -/
structure IkcpSeg.Push (conv token : UInt32) (s : IkcpSeg) : Prop where
  conv_eq : s.conv = conv
  token_eq : s.token = token
  cmd : s.cmd = ikcpCmdPush
  frg : s.frg < 256
  len : s.data.length < 2 ^ 31

/-- An end does not stream, and all it queued is the fragments of what it accepted. -/
structure Peer.Ok (conv token : UInt32) (p : Peer) : Prop where
  conv_eq : p.kcp.conv = conv
  token_eq : p.kcp.token = token
  stream : p.kcp.stream = 0
  mss_pos : 0 < p.kcp.mss.toNat
  mss_lt : p.kcp.mss.toNat < 2 ^ 31
  framed : Fragments p.queued p.accepted
  frg_lt : ∀ f ∈ p.queued, f.frg < 128
  accepted_lt : ∀ m ∈ p.accepted, m.length < 2 ^ 31
  sndQueue : ∀ f ∈ p.kcp.sndQueue, f.frg < 256 ∧ f.data.length < 2 ^ 31
  sndBuf : ∀ s ∈ p.kcp.sndBuf, s.Push conv token

namespace Peer

variable {conv token : UInt32} {p : Peer}

theorem Ok.new (conv token : UInt32) : (Peer.new conv token).Ok conv token where
  conv_eq := rfl
  token_eq := rfl
  stream := rfl
  mss_pos := show 0 < (ikcpMtuDef - UInt32.ofNat ikcpOverhead).toNat by decide
  mss_lt := show (ikcpMtuDef - UInt32.ofNat ikcpOverhead).toNat < 2 ^ 31 by decide
  framed := .nil
  frg_lt := by simp [Peer.new]
  accepted_lt := by simp [Peer.new]
  sndQueue := by simp [Peer.new, Kcpcb.create]
  sndBuf := by simp [Peer.new, Kcpcb.create]

/-- An end with another control block of the same settings. -/
theorem Ok.congr {p' : Peer} (h : p.Ok conv token) (hconv : p'.kcp.conv = p.kcp.conv)
    (htoken : p'.kcp.token = p.kcp.token) (hstream : p'.kcp.stream = p.kcp.stream) (hmss : p'.kcp.mss = p.kcp.mss)
    (hqueued : p'.queued = p.queued) (haccepted : p'.accepted = p.accepted)
    (hqueue : ∀ f ∈ p'.kcp.sndQueue, f.frg < 256 ∧ f.data.length < 2 ^ 31)
    (hbuf : ∀ s ∈ p'.kcp.sndBuf, s.Push conv token) : p'.Ok conv token where
  conv_eq := hconv.trans h.conv_eq
  token_eq := htoken.trans h.token_eq
  stream := hstream.trans h.stream
  mss_pos := by rw [hmss]; exact h.mss_pos
  mss_lt := by rw [hmss]; exact h.mss_lt
  framed := by rw [hqueued, haccepted]; exact h.framed
  frg_lt := by rw [hqueued]; exact h.frg_lt
  accepted_lt := by rw [haccepted]; exact h.accepted_lt
  sndQueue := hqueue
  sndBuf := hbuf

theorem Ok.numbered (h : p.Ok conv token) : { p with kcp := p.kcp.numbered }.Ok conv token := by
  obtain ⟨tsProbe, probeWait, probe, hprobe⟩ := p.kcp.probeWindow_eq
  have hstart : { p with kcp := { p.kcp with tsProbe := tsProbe, probeWait := probeWait, probe := probe } }.Ok
      conv token := h.congr rfl rfl rfl rfl rfl rfl h.sndQueue h.sndBuf
  unfold Kcpcb.numbered
  rw [hprobe]
  refine Kcpcb.moveQueue_induct (P := fun k => { p with kcp := k }.Ok conv token)
    (fun k fragment queue hq _ hk => ?_) _ hstart
  have hqueue := hk.sndQueue
  rw [show ({ p with kcp := k } : Peer).kcp.sndQueue = fragment :: queue from hq, List.forall_mem_cons] at hqueue
  refine hk.congr rfl rfl rfl rfl rfl rfl hqueue.2 fun s hs => ?_
  rcases List.mem_append.mp hs with hs | hs
  · exact hk.sndBuf s hs
  · obtain rfl := List.mem_singleton.mp hs
    exact ⟨hk.conv_eq, hk.token_eq, rfl, hqueue.1.1, hqueue.1.2⟩

end Peer

theorem IkcpSeg.Push.stamp {conv token : UInt32} {s : IkcpSeg} (h : s.Push conv token) (kcp : Kcpcb)
    (d : Kcpcb.Due) : (kcp.stamp s d).Push conv token := by
  cases d <;> exact ⟨h.conv_eq, h.token_eq, h.cmd, h.frg, h.len⟩

theorem IkcpSeg.Push.flushSeg {conv token : UInt32} {s : IkcpSeg} (h : s.Push conv token) (kcp : Kcpcb) :
    (kcp.flushSeg s).Push conv token := by
  unfold Kcpcb.flushSeg
  split
  · exact h.stamp kcp _
  · exact h

/-- What arrives only takes segments out of `snd_buf` and counts at those left. -/
theorem Kcpcb.input_push {conv token : UInt32} {kcp : Kcpcb} (h : ∀ s ∈ kcp.sndBuf, s.Push conv token)
    (data : Bytes) : ∀ s ∈ (kcp.input data).2.sndBuf, s.Push conv token := by
  refine Kcpcb.input_induct (P := fun k => ∀ s ∈ k.sndBuf, s.Push conv token) (fun k head data hk => ?_)
    (fun k una maxack hk => ?_) data h
  · have htake : ∀ s ∈ (k.takeHeader head).sndBuf, s.Push conv token :=
      fun s hs => hk s ((Kcpcb.parseUna_sublist head.una k.sndBuf).subset hs)
    rcases k.inputSeg_cases head data with ⟨-, srtt, rttval, rto, heq⟩ | ⟨-, heq⟩ | ⟨-, -, probe, heq⟩
    · obtain ⟨buf, hbuf, hcases⟩ := Kcpcb.parseAck_eq
        { k.takeHeader head with rxSrtt := srtt, rxRttval := rttval, rxRto := rto } head.sn
      rw [heq, hbuf]
      rcases hcases with rfl | rfl
      · exact htake
      · exact fun s hs => htake s ((Kcpcb.removeAcked_sublist head.sn _).subset hs)
    · rw [heq]
      exact htake
    · rw [heq]
      exact htake
  · obtain ⟨buf, cwnd, incr, heq, hbuf⟩ := k.afterInput_eq una maxack
    rw [heq]
    rcases hbuf with rfl | ⟨sn, rfl⟩
    · exact hk
    · exact Kcpcb.countFastack_forall (fun s hs => ⟨hs.conv_eq, hs.token_eq, hs.cmd, hs.frg, hs.len⟩) hk

namespace Peer

variable {conv token : UInt32} {p : Peer}

theorem Ok.flush (h : p.Ok conv token) : { p with kcp := p.kcp.flush.2 }.Ok conv token := by
  cases hu : p.kcp.updated with
  | false =>
    rw [Kcpcb.flush_idle hu]
    exact h
  | true =>
    obtain ⟨state, ssthresh, cwnd, incr, heq⟩ := Kcpcb.flush_eq hu
    have hnum := h.numbered
    rw [heq]
    refine hnum.congr rfl rfl rfl rfl rfl rfl hnum.sndQueue fun s hs => ?_
    obtain ⟨segment, hmem, rfl⟩ := List.mem_map.mp hs
    exact (hnum.sndBuf segment hmem).flushSeg _

theorem Ok.update (h : p.Ok conv token) (current : UInt32) :
    { p with kcp := (p.kcp.update current).2 }.Ok conv token := by
  obtain ⟨tsFlush, heq | heq⟩ := p.kcp.update_cases current
  · have hset : { p with kcp := { p.kcp with current := current, updated := true, tsFlush := tsFlush } }.Ok conv token :=
      h.congr rfl rfl rfl rfl rfl rfl h.sndQueue h.sndBuf
    rw [heq]
    exact hset.flush
  · rw [heq]
    exact h.congr rfl rfl rfl rfl rfl rfl h.sndQueue h.sndBuf

theorem ikcpRecv_ids (cb : Ikcpcb) (len : Int) :
    (ikcpRecv cb len).2.2.conv = cb.conv ∧ (ikcpRecv cb len).2.2.token = cb.token := by
  rcases ikcpRecv_cases cb len with ⟨-, h⟩ | ⟨m, -, h⟩
  · rw [h]
    exact ⟨rfl, rfl⟩
  · rw [h]
    dsimp only
    split <;> exact ⟨rfl, rfl⟩

/-- A call that accepts nothing and returns nothing leaves the records alone, but for what it puts out. -/
theorem step_eq {a : KcpAct} (haccepts : accepts p.kcp a = []) (hreturns : returns p.kcp a = []) :
    p.step a = { p with kcp := (p.kcp.step a).1, out := p.out ++ (p.kcp.step a).2 } := by
  simp [Peer.step, takes, haccepts, hreturns]

/-- `ikcp_recv` takes out nothing, or the head message; unless it refuses, segments in order move up. -/
theorem recv_cases (p : Peer) (len : Int32) :
    ∃ probe, p.step (.recv len) = { p with kcp := { p.kcp with probe := probe } } ∨
      p.step (.recv len) = { p with kcp := { p.kcp with toIkcpcb := p.kcp.moved, probe := probe } } ∨
      ∃ m, headMessage p.kcp.rcvQueue = some m ∧ p.step (.recv len) = { p with
        kcp := { p.kcp with toIkcpcb := p.kcp.taken, probe := probe }
        received := p.received ++ [m]
        taken := p.taken ++ (headFragments p.kcp.rcvQueue).map Seg.fragment } := by
  obtain ⟨probe, heq⟩ := p.kcp.recv_eq len.toInt
  obtain ⟨hret, hdata, -⟩ := p.kcp.recv_rcv len.toInt
  refine ⟨probe, ?_⟩
  rcases ikcpRecv_cases p.kcp.toIkcpcb len.toInt with ⟨hneg, hsame⟩ | ⟨m, hm, hrecv⟩
  · have hreturns : returns p.kcp (.recv len) = [] := by
      rw [returns, hret, if_neg (by omega)]
    rw [hsame] at heq
    left
    rw [step_eq rfl hreturns, Kcpcb.step, heq, List.append_nil]
  · rw [hrecv] at hret hdata heq
    by_cases hlen : len.toInt < 0
    · have hreturns : returns p.kcp (.recv len) = [] := by
        rw [returns, if_neg (by omega)]
      rw [if_pos hlen] at heq
      right; left
      rw [step_eq rfl hreturns, Kcpcb.step, heq, List.append_nil]
    · have hreturns : returns p.kcp (.recv len) = [m] := by
        rw [returns, hret, hdata, if_pos ⟨Int.natCast_nonneg _, Int.not_lt.mp hlen⟩]
      rw [if_neg hlen] at heq
      right; right
      refine ⟨m, hm, ?_⟩
      simp [Peer.step, takes, hreturns, accepts, Kcpcb.step, heq]

/-- `ikcp_send` accepts a message and queues its fragments, or it changes nothing. -/
theorem Ok.send_cases (h : p.Ok conv token) (buffer : Bytes) (len : Int32) :
    (p.step (.send buffer len) = p) ∨
      ∃ frags, Fragments frags [buffer.take len.toInt.toNat] ∧ (∀ f ∈ frags, f.frg < 128 ∧ f.data.length < 2 ^ 31) ∧
        p.step (.send buffer len) = { p with
          kcp := { p.kcp with sndQueue := p.kcp.sndQueue ++ frags }
          accepted := p.accepted ++ [buffer.take len.toInt.toNat]
          queued := p.queued ++ frags } := by
  have refused : ∀ ret : Int, ret ≠ 0 → p.kcp.send buffer len.toInt = (ret, p.kcp) → p.step (.send buffer len) = p := by
    intro ret hret heq
    have haccepts : accepts p.kcp (.send buffer len) = [] := by simp [accepts, heq, hret]
    rw [step_eq haccepts rfl]
    simp [Kcpcb.step, heq]
  by_cases hlen : 0 ≤ len.toInt
  · obtain ⟨hshort, hlong⟩ := send_spec h.stream h.mss_pos buffer hlen
    by_cases hle : (buffer.take len.toInt.toNat).length ≤ 127 * p.kcp.mss.toNat
    · obtain ⟨frags, heq, hframed, hsmall⟩ := hshort hle
      have hmss := h.mss_lt
      refine .inr ⟨frags, hframed, fun f hf => ?_, ?_⟩
      · have := hsmall f hf
        omega
      · have haccepts : accepts p.kcp (.send buffer len) = [buffer.take len.toInt.toNat] := by simp [accepts, heq]
        simp [Peer.step, haccepts, takes, returns, Kcpcb.step, heq]
    · exact .inl (refused (-2) (by decide) (hlong (Nat.not_le.mp hle)))
  · refine .inl (refused (-1) (by decide) ?_)
    rw [Kcpcb.send, if_pos (by omega)]

theorem Ok.send (h : p.Ok conv token) (buffer : Bytes) (len : Int32) : (p.step (.send buffer len)).Ok conv token := by
  rcases h.send_cases buffer len with heq | ⟨frags, hframed, hsmall, heq⟩
  · rw [heq]
    exact h
  · rw [heq]
    have hlen := len.toInt_lt
    refine ⟨h.conv_eq, h.token_eq, h.stream, h.mss_pos, h.mss_lt, h.framed.append hframed, fun f hf => ?_,
      fun m hm => ?_, fun f hf => ?_, h.sndBuf⟩
    · rcases List.mem_append.mp hf with hf | hf
      · exact h.frg_lt f hf
      · exact (hsmall f hf).1
    · rcases List.mem_append.mp hm with hm | hm
      · exact h.accepted_lt m hm
      · obtain rfl := List.mem_singleton.mp hm
        rw [List.length_take]
        omega
    · rcases List.mem_append.mp hf with hf | hf
      · exact h.sndQueue f hf
      · have := hsmall f hf
        omega

theorem Ok.setmtu (h : p.Ok conv token) (mtu : Int32) : (p.step (.setmtu mtu)).Ok conv token := by
  obtain ⟨mtu', mss, size, heq, hmss⟩ := p.kcp.setmtu_eq mtu
  rw [step_eq rfl rfl, Kcpcb.step, heq]
  refine ⟨h.conv_eq, h.token_eq, h.stream, ?_, ?_, h.framed, h.frg_lt, h.accepted_lt, h.sndQueue, h.sndBuf⟩
  · rcases hmss with ⟨-, rfl, -⟩ | ⟨-, hpos, -⟩
    · exact h.mss_pos
    · exact hpos
  · rcases hmss with ⟨-, rfl, -⟩ | ⟨hmss, -, hmtu, -⟩
    · exact h.mss_lt
    · have hlt := mtu.toInt_lt
      show mss.toNat < 2 ^ 31
      omega

/-- Every call keeps what an end keeps to itself. -/
theorem Ok.step (h : p.Ok conv token) (a : KcpAct) : (p.step a).Ok conv token := by
  cases a with
  | send buffer len => exact h.send buffer len
  | recv len =>
    obtain ⟨probe, heq⟩ := p.kcp.recv_eq len.toInt
    have hids := ikcpRecv_ids p.kcp.toIkcpcb len.toInt
    have hkcp : (p.step (.recv len)).kcp =
        { p.kcp with toIkcpcb := (ikcpRecv p.kcp.toIkcpcb len.toInt).2.2, probe := probe } := heq
    refine h.congr ?_ ?_ ?_ ?_ (List.append_nil _) (List.append_nil _) ?_ ?_ <;> rw [hkcp]
    · exact hids.1
    · exact hids.2
    · exact h.sndQueue
    · exact h.sndBuf
  | input data =>
    have hsame := p.kcp.input_sameSend data
    rw [step_eq rfl rfl]
    refine h.congr hsame.conv hsame.token hsame.stream hsame.mss rfl rfl ?_ (Kcpcb.input_push h.sndBuf data)
    show ∀ f ∈ (p.kcp.input data).2.sndQueue, _
    rw [hsame.sndQueue]
    exact h.sndQueue
  | update current =>
    rw [step_eq rfl rfl]
    exact (h.update current).congr rfl rfl rfl rfl rfl rfl (h.update current).sndQueue (h.update current).sndBuf
  | flush =>
    rw [step_eq rfl rfl]
    exact h.flush.congr rfl rfl rfl rfl rfl rfl h.flush.sndQueue h.flush.sndBuf
  | nodelay nodelay interval resend nc =>
    obtain ⟨_, _, _, _, _, heq⟩ := p.kcp.setNodelay_eq nodelay interval resend nc
    rw [step_eq rfl rfl, Kcpcb.step, heq]
    exact h.congr rfl rfl rfl rfl rfl rfl h.sndQueue h.sndBuf
  | wndsize sndwnd rcvwnd =>
    obtain ⟨sndWnd, rcvWnd, heq, -, -⟩ := p.kcp.wndsize_eq sndwnd rcvwnd
    rw [step_eq rfl rfl, Kcpcb.step, heq]
    exact h.congr rfl rfl rfl rfl rfl rfl h.sndQueue h.sndBuf
  | interval interval =>
    rw [step_eq rfl rfl]
    exact h.congr rfl rfl rfl rfl rfl rfl h.sndQueue h.sndBuf
  | setmtu mtu => exact h.setmtu mtu

end Peer

end EyPS
