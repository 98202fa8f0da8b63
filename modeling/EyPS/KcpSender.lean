/-
One direction of a link is selective repeat: `p` numbers, keeps and sends, `q` collects,
delivers and reports. Here the sender's half: whatever call is made on `p`, and whatever
of `q` arrives at it, is steps of `Arq`.

A sequence number has 32 bits and two of them are told apart up to `2 ^ 31`. A datagram
may be delayed for as long as the run lasts, so the results are for runs in which an end
queues fewer fragments than that.
-/
import EyPS.KcpLink
import Mathlib.Data.List.TakeWhile

namespace EyPS

/-- A datagram whose PUSH segments are on the channel. -/
def DataOn (conv token : UInt32) (wire : Set (Arq.Msg Fragment)) (d : Bytes) : Prop :=
  ∃ segs, segs ≠ [] ∧ d = datagram segs ∧ ∀ s ∈ segs, s.Readable conv token ∧ s.frg < 256 ∧
    (s.cmd = ikcpCmdPush → .data s.sn.toNat s.seg.fragment ∈ wire)

/-- A datagram whose acknowledgements are on the channel. -/
def ReportsOn (conv token : UInt32) (wire : Set (Arq.Msg Fragment)) (d : Bytes) : Prop :=
  ∃ segs, segs ≠ [] ∧ d = datagram segs ∧ ∀ s ∈ segs, s.Readable conv token ∧
    .una s.una.toNat ∈ wire ∧ (s.cmd = ikcpCmdAck → .ack s.sn.toNat ∈ wire)

theorem DataOn.mono {conv token : UInt32} {wire wire' : Set (Arq.Msg Fragment)} (hsub : wire ⊆ wire') {d : Bytes}
    (h : DataOn conv token wire d) : DataOn conv token wire' d := by
  obtain ⟨segs, hne, heq, hsegs⟩ := h
  exact ⟨segs, hne, heq, fun s hs => ⟨(hsegs s hs).1, (hsegs s hs).2.1, fun hc => hsub ((hsegs s hs).2.2 hc)⟩⟩

theorem ReportsOn.mono {conv token : UInt32} {wire wire' : Set (Arq.Msg Fragment)} (hsub : wire ⊆ wire') {d : Bytes}
    (h : ReportsOn conv token wire d) : ReportsOn conv token wire' d := by
  obtain ⟨segs, hne, heq, hsegs⟩ := h
  exact ⟨segs, hne, heq, fun s hs =>
    ⟨(hsegs s hs).1, hsub (hsegs s hs).2.1, fun hc => hsub ((hsegs s hs).2.2 hc)⟩⟩

/-- `p`'s send side, `q`'s receive side and what both have put out are a state of selective repeat. -/
structure Carries (conv token : UInt32) (p q : Peer) (l : Arq.Link Fragment) : Prop where
  queued : p.queued = l.log ++ p.kcp.sndQueue
  sndNxt : p.kcp.sndNxt = UInt32.ofNat l.log.length
  sent : ∀ s ∈ p.kcp.inFlight, l.log[s.sn.toNat]? = some s.fragment
  kept : ∀ n, n ∈ l.kept ↔ ∃ s ∈ p.kcp.inFlight, s.sn.toNat = n
  delivered : l.delivered = q.taken ++ q.kcp.rcvQueue.map Seg.fragment
  rcvNxt : q.kcp.rcvNxt = UInt32.ofNat l.delivered.length
  early : ∀ s ∈ q.kcp.rcvBuf, (s.sn.toNat, s.fragment) ∈ l.received
  arrived : ∀ n, l.Arrived n → n < l.delivered.length ∨ ∃ s ∈ q.kcp.rcvBuf, s.sn.toNat = n
  acklist : ∀ x ∈ q.kcp.acklist, .ack x.1.toNat ∈ l.wire
  data : ∀ d ∈ p.out, DataOn conv token l.wire d
  reports : ∀ d ∈ q.out, ReportsOn conv token l.wire d

namespace Carries

variable {conv token : UInt32} {p q : Peer} {l : Arq.Link Fragment}

theorem start (conv token : UInt32) : Carries conv token (.new conv token) (.new conv token) .init where
  queued := rfl
  sndNxt := rfl
  sent := by simp [Peer.new, Kcpcb.create, Kcpcb.inFlight]
  kept := by simp [Peer.new, Kcpcb.create, Kcpcb.inFlight, Arq.Link.init]
  delivered := rfl
  rcvNxt := rfl
  early := by simp [Peer.new, Kcpcb.create, ikcpCreate]
  arrived := by simp [Arq.Link.init, Arq.Link.Arrived]
  acklist := by simp [Peer.new, Kcpcb.create]
  data := by simp [Peer.new]
  reports := by simp [Peer.new]

/-- Another `p` with the same send side. -/
theorem congr_left {p' : Peer} (h : Carries conv token p q l) (hqueued : p'.queued = p.queued)
    (hqueue : p'.kcp.sndQueue = p.kcp.sndQueue) (hnxt : p'.kcp.sndNxt = p.kcp.sndNxt)
    (hbuf : p'.kcp.inFlight = p.kcp.inFlight) (hout : p'.out = p.out) : Carries conv token p' q l :=
  { h with
    queued := by rw [hqueued, hqueue, h.queued]
    sndNxt := by rw [hnxt, h.sndNxt]
    sent := by rw [hbuf]; exact h.sent
    kept := by rw [hbuf]; exact h.kept
    data := by rw [hout]; exact h.data }

/-- Another `q` with the same segments. -/
theorem congr_right {q' : Peer} (h : Carries conv token p q l) (htaken : q'.taken = q.taken)
    (hqueue : q'.kcp.rcvQueue = q.kcp.rcvQueue) (hnxt : q'.kcp.rcvNxt = q.kcp.rcvNxt)
    (hbuf : q'.kcp.rcvBuf = q.kcp.rcvBuf) (hacks : ∀ x ∈ q'.kcp.acklist, .ack x.1.toNat ∈ l.wire)
    (hout : ∀ d ∈ q'.out, ReportsOn conv token l.wire d) : Carries conv token p q' l :=
  { h with
    delivered := by rw [htaken, hqueue, h.delivered]
    rcvNxt := by rw [hnxt, h.rcvNxt]
    early := by rw [hbuf]; exact h.early
    arrived := by rw [hbuf]; exact h.arrived
    acklist := hacks
    reports := hout }

/-- More on the channel does no harm. -/
theorem say (h : Carries conv token p q l) (ms : Set (Arq.Msg Fragment)) :
    Carries conv token p q { l with wire := l.wire ∪ ms } :=
  { h with
    acklist := fun x hx => .inl (h.acklist x hx)
    data := fun d hd => (h.data d hd).mono Set.subset_union_left
    reports := fun d hd => (h.reports d hd).mono Set.subset_union_left }

theorem log_length_le (h : Carries conv token p q l) : l.log.length ≤ p.queued.length := by
  rw [h.queued, List.length_append]
  exact Nat.le_add_right _ _

end Carries

theorem toNat_ofNat_of_lt {n : Nat} (h : n < 2 ^ 31) : (UInt32.ofNat n).toNat = n := by
  rw [UInt32.toNat_ofNat']
  omega

/-! ## The sender -/

namespace Carries

variable {conv token : UInt32} {p q : Peer} {l : Arq.Link Fragment}

/-- A fragment that moves to `snd_buf` is numbered. -/
theorem moveOne (h : Carries conv token p q l) (hbound : p.queued.length < 2 ^ 31) {fragment : Fragment}
    {queue : List Fragment} (hq : p.kcp.sndQueue = fragment :: queue) :
    Carries conv token { p with kcp := p.kcp.moveOne fragment queue } q
      { l with log := l.log ++ [fragment], kept := insert l.log.length l.kept } := by
  have hlen := h.log_length_le
  have hsn : p.kcp.sndNxt.toNat = l.log.length := by rw [h.sndNxt, toNat_ofNat_of_lt (by omega)]
  have hbuf := p.kcp.moveOne_inFlight fragment queue
  refine { h with queued := ?_, sndNxt := ?_, sent := ?_, kept := ?_ }
  · rw [h.queued, hq]
    exact List.append_cons _ _ _
  · rw [List.length_append, List.length_singleton, UInt32.ofNat_add, ← h.sndNxt]
    rfl
  · intro s hs
    rw [show ({ p with kcp := p.kcp.moveOne fragment queue } : Peer).kcp.inFlight = _ from hbuf] at hs
    rcases List.mem_append.mp hs with hs | hs
    · exact Arq.getElem?_concat_of_some (h.sent s hs)
    · obtain rfl := List.mem_singleton.mp hs
      show (l.log ++ [fragment])[p.kcp.sndNxt.toNat]? = some fragment
      rw [hsn]
      simp
  · intro n
    rw [show ({ p with kcp := p.kcp.moveOne fragment queue } : Peer).kcp.inFlight = _ from hbuf]
    simp only [Set.mem_insert_iff, h.kept, List.mem_append, List.mem_singleton, or_and_right, exists_or,
      exists_eq_left, hsn]
    rw [or_comm, eq_comm]

/-- `ikcp_flush` numbers what the window admits. -/
theorem numbered (h : Carries conv token p q l) (hbound : p.queued.length < 2 ^ 31) :
    ∃ l', Arq.Steps l l' ∧ Carries conv token { p with kcp := p.kcp.numbered } q l' := by
  obtain ⟨tsProbe, probeWait, probe, hprobe⟩ := p.kcp.probeWindow_eq
  have hstart : Carries conv token
      { p with kcp := { p.kcp with tsProbe := tsProbe, probeWait := probeWait, probe := probe } } q l :=
    h.congr_left rfl rfl rfl rfl rfl
  unfold Kcpcb.numbered
  rw [hprobe]
  refine Kcpcb.moveQueue_induct
    (P := fun k => ∃ l', Arq.Steps l l' ∧ Carries conv token { p with kcp := k } q l')
    (fun k fragment queue hq _ hk => ?_) _ ⟨l, .refl, hstart⟩
  obtain ⟨l', hsteps, hk⟩ := hk
  exact ⟨_, hsteps.tail (.number l' fragment), hk.moveOne hbound hq⟩

end Carries

/-! ## What a flush puts out -/

/-- A segment that `ikcp_flush` sends: the peer can read it, a PUSH carries a numbered fragment, an
acknowledgement a number of `acklist`. -/
theorem Peer.Ok.flushSegs {conv token : UInt32} {p : Peer} (h : p.Ok conv token) :
    ∀ s ∈ p.kcp.flushSegs, s.Readable conv token ∧ s.frg < 256 ∧ s.una = p.kcp.rcvNxt ∧
      (s.cmd = ikcpCmdPush → s.seg ∈ p.kcp.numbered.inFlight) ∧
      (s.cmd = ikcpCmdAck → ∃ x ∈ p.kcp.acklist, s.sn = x.1) := by
  intro s hs
  have hnil : ([] : Bytes).length < 2 ^ 31 := by decide
  rcases Kcpcb.mem_flushSegs hs with ⟨x, hx, rfl⟩ | ⟨sn, ts, rfl | rfl⟩ | ⟨segment, hmem, d, -, rfl⟩
  · refine ⟨⟨h.conv_eq, h.token_eq, .inr (.inl rfl), hnil⟩, show 0 < 256 by decide, rfl, fun hc => ?_,
      fun _ => ⟨x, hx, rfl⟩⟩
    exact absurd hc (show ikcpCmdAck ≠ ikcpCmdPush by decide)
  · refine ⟨⟨h.conv_eq, h.token_eq, .inr (.inr (.inl rfl)), hnil⟩, show 0 < 256 by decide, rfl, fun hc => ?_,
      fun hc => ?_⟩
    · exact absurd hc (show ikcpCmdWask ≠ ikcpCmdPush by decide)
    · exact absurd hc (show ikcpCmdWask ≠ ikcpCmdAck by decide)
  · refine ⟨⟨h.conv_eq, h.token_eq, .inr (.inr (.inr rfl)), hnil⟩, show 0 < 256 by decide, rfl, fun hc => ?_,
      fun hc => ?_⟩
    · exact absurd hc (show ikcpCmdWins ≠ ikcpCmdPush by decide)
    · exact absurd hc (show ikcpCmdWins ≠ ikcpCmdAck by decide)
  · have hpush := (h.numbered.sndBuf segment hmem).stamp p.kcp.numbered d
    obtain ⟨_, _, _, _, _, _, hnum⟩ := p.kcp.numbered_eq
    have hnxt : p.kcp.numbered.rcvNxt = p.kcp.rcvNxt := by rw [hnum]
    refine ⟨⟨hpush.conv_eq, hpush.token_eq, .inl hpush.cmd, hpush.len⟩, hpush.frg, hnxt, fun _ => ?_, fun hc => ?_⟩
    · rw [Kcpcb.stamp_seg]
      exact List.mem_map_of_mem hmem
    · rw [hpush.cmd] at hc
      exact absurd hc (show ikcpCmdPush ≠ ikcpCmdAck by decide)

/-- A datagram that `ikcp_flush` puts out. -/
theorem Kcpcb.mem_flush {kcp : Kcpcb} (hu : kcp.updated = true) {d : Bytes} (hd : d ∈ kcp.flush.1) :
    ∃ segs, segs ≠ [] ∧ d = datagram segs ∧ ∀ s ∈ segs, s ∈ kcp.flushSegs := by
  obtain ⟨parts, hout, hne, hflat⟩ := Kcpcb.flush_packs hu
  rw [hout] at hd
  obtain ⟨segs, hmem, rfl⟩ := List.mem_map.mp hd
  refine ⟨segs, fun hnil => hne (hnil ▸ hmem), rfl, fun s hs => ?_⟩
  rw [← hflat]
  exact List.mem_flatten.mpr ⟨segs, hmem, hs⟩

/-! ## The sender's calls -/

namespace Carries

variable {conv token : UInt32} {p q : Peer} {l : Arq.Link Fragment}

/-- The sender flushes: it numbers what the window admits, and sends of what it keeps. -/
theorem flush_left (h : Carries conv token p q l) (hp : p.Ok conv token) (hbound : p.queued.length < 2 ^ 31) :
    ∃ l', Arq.Steps l l' ∧
      Carries conv token { p with kcp := p.kcp.flush.2, out := p.out ++ p.kcp.flush.1 } q l' := by
  cases hu : p.kcp.updated with
  | false =>
    rw [Kcpcb.flush_idle hu, List.append_nil]
    exact ⟨l, .refl, h⟩
  | true =>
    obtain ⟨l', hsteps, hnum⟩ := h.numbered hbound
    obtain ⟨state, ssthresh, cwnd, incr, heq⟩ := Kcpcb.flush_eq hu
    let ms : Set (Arq.Msg Fragment) := { m | ∃ s ∈ p.kcp.numbered.inFlight, m = .data s.sn.toNat s.fragment }
    have htells : ∀ m ∈ ms, l'.Tells m := by
      rintro m ⟨s, hs, rfl⟩
      exact hnum.sent s hs
    have hflight : p.kcp.flush.2.inFlight = p.kcp.numbered.inFlight := by
      rw [heq]
      exact Kcpcb.flushed_inFlight _ _
    have hsaid := hnum.say ms
    refine ⟨_, hsteps.tail (.say l' ms htells),
      { hsaid with queued := ?_, sndNxt := ?_, sent := ?_, kept := ?_, data := ?_ }⟩
    · rw [show ({ p with kcp := p.kcp.flush.2, out := p.out ++ p.kcp.flush.1 } : Peer).kcp.sndQueue =
        p.kcp.numbered.sndQueue from by rw [heq]]
      exact hsaid.queued
    · rw [show ({ p with kcp := p.kcp.flush.2, out := p.out ++ p.kcp.flush.1 } : Peer).kcp.sndNxt =
        p.kcp.numbered.sndNxt from by rw [heq]]
      exact hsaid.sndNxt
    · rw [show ({ p with kcp := p.kcp.flush.2, out := p.out ++ p.kcp.flush.1 } : Peer).kcp.inFlight = _ from hflight]
      exact hsaid.sent
    · rw [show ({ p with kcp := p.kcp.flush.2, out := p.out ++ p.kcp.flush.1 } : Peer).kcp.inFlight = _ from hflight]
      exact hsaid.kept
    · intro d hd
      rcases List.mem_append.mp hd with hd | hd
      · exact hsaid.data d hd
      · obtain ⟨segs, hne, rfl, hsegs⟩ := Kcpcb.mem_flush hu hd
        refine ⟨segs, hne, rfl, fun s hs => ?_⟩
        obtain ⟨hread, hfrg, -, hpush, -⟩ := hp.flushSegs s (hsegs s hs)
        exact ⟨hread, hfrg, fun hc => .inr ⟨s.seg, hpush hc, rfl⟩⟩

end Carries

/-- What a segment takes out of `snd_buf` it acknowledges. -/
theorem Kcpcb.mem_inputSeg {kcp : Kcpcb} {head : Kcpcb.SegHeader} {data : Bytes} {s : Seg} (hs : s ∈ kcp.inFlight)
    (hnot : s ∉ (kcp.inputSeg head data).inFlight) :
    0 < itimediff head.una s.sn ∨ head.cmd = ikcpCmdAck ∧ s.sn = head.sn := by
  obtain ⟨segment, hmem, rfl⟩ := List.mem_map.mp hs
  by_contra hkept
  obtain ⟨huna, hack⟩ := not_or.mp hkept
  have htake : segment ∈ (kcp.takeHeader head).sndBuf := by
    rw [← List.takeWhile_append_dropWhile (p := fun seg : IkcpSeg => decide (0 < itimediff head.una seg.sn))
      (l := kcp.sndBuf)] at hmem
    rcases List.mem_append.mp hmem with hmem | hmem
    · have hcovered := List.mem_takeWhile_imp hmem
      exact absurd (of_decide_eq_true hcovered) huna
    · exact hmem
  rcases kcp.inputSeg_cases head data with ⟨hcmd, srtt, rttval, rto, heq⟩ | ⟨-, heq⟩ | ⟨-, -, probe, heq⟩
  · obtain ⟨buf, hbuf, hcases⟩ := parseAck_eq
      { kcp.takeHeader head with rxSrtt := srtt, rxRttval := rttval, rxRto := rto } head.sn
    refine hnot ?_
    rw [heq, hbuf]
    refine List.mem_map_of_mem (?_ : segment ∈ buf)
    rcases hcases with rfl | rfl
    · exact htake
    · exact mem_removeAcked htake fun hsn => hack ⟨hcmd, hsn⟩
  · refine hnot ?_
    rw [heq]
    exact List.mem_map_of_mem htake
  · refine hnot ?_
    rw [heq]
    exact List.mem_map_of_mem htake

theorem Kcpcb.afterInput_inFlight (kcp : Kcpcb) (prevUna : UInt32) (maxack : Option UInt32) :
    (kcp.afterInput prevUna maxack).inFlight = kcp.inFlight := by
  obtain ⟨buf, cwnd, incr, h, hbuf⟩ := kcp.afterInput_eq prevUna maxack
  rw [h]
  rcases hbuf with rfl | ⟨sn, rfl⟩
  · rfl
  · exact countFastack_seg sn _

namespace Carries

variable {conv token : UInt32} {p q : Peer} {l : Arq.Link Fragment}

/-- The sender forgets what a segment of the peer reports. -/
theorem inputSeg_left (h : Carries conv token p q l) (hl : l.Inv) (hbound : p.queued.length < 2 ^ 31)
    (head : Kcpcb.SegHeader) (data : Bytes) (huna : .una head.una.toNat ∈ l.wire)
    (hack : head.cmd = ikcpCmdAck → .ack head.sn.toNat ∈ l.wire) :
    ∃ l', Arq.Step l l' ∧ Carries conv token { p with kcp := p.kcp.inputSeg head data } q l' := by
  have hsame := p.kcp.inputSeg_sameSend head data
  have hlog := h.log_length_le
  have hdelivered := hl.delivered.length_le
  refine ⟨_, .forget l { n | ∃ s ∈ (p.kcp.inputSeg head data).inFlight, s.sn.toNat = n } ?_ ?_,
    { h with queued := ?_, sndNxt := ?_, sent := ?_, kept := fun n => Iff.rfl }⟩
  · rintro n ⟨s, hs, hn⟩
    exact (h.kept n).mpr ⟨s, hsame.sndBuf.subset hs, hn⟩
  · intro n hn hgone
    obtain ⟨s, hs, rfl⟩ := (h.kept n).mp hn
    rcases Kcpcb.mem_inputSeg hs (fun hs' => hgone ⟨s, hs', rfl⟩) with hcovered | ⟨hcmd, hsn⟩
    · refine .inr ⟨_, huna, ?_⟩
      have hunaLe : head.una.toNat ≤ l.delivered.length := hl.wire _ huna
      have hsnLt := (List.getElem?_eq_some_iff.mp (h.sent s hs)).1
      have hdiff := itimediff_of_lt (a := head.una) (b := s.sn) (by omega) (by omega)
      omega
    · rw [hsn]
      exact .inl (hack hcmd)
  · rw [h.queued, ← hsame.sndQueue]
  · rw [← h.sndNxt, ← hsame.sndNxt]
  · exact fun s hs => h.sent s (hsame.sndBuf.subset hs)

theorem inputSegs_left (h : Carries conv token p q l) (hl : l.Inv) (hbound : p.queued.length < 2 ^ 31)
    {segs : List IkcpSeg} (hsegs : ∀ s ∈ segs, .una s.una.toNat ∈ l.wire ∧
      (s.cmd = ikcpCmdAck → .ack s.sn.toNat ∈ l.wire)) :
    ∃ l', Arq.Steps l l' ∧ Carries conv token { p with kcp := p.kcp.inputSegs segs } q l' := by
  induction segs generalizing p l with
  | nil => exact ⟨l, .refl, h⟩
  | cons s segs ih =>
    obtain ⟨⟨huna, hack⟩, hsegs⟩ := List.forall_mem_cons.mp hsegs
    obtain ⟨l', hstep, h'⟩ := h.inputSeg_left hl hbound s.head s.data huna hack
    have hwire := Arq.Steps.wire_subset (.single hstep)
    obtain ⟨l'', hsteps, h''⟩ := ih h' (hl.step hstep) hbound fun t ht =>
      ⟨hwire (hsegs t ht).1, fun hc => hwire ((hsegs t ht).2 hc)⟩
    exact ⟨l'', hsteps.head hstep, h''⟩

/-- The sender takes a datagram of the peer. -/
theorem input_left (h : Carries conv token p q l) (hl : l.Inv) (hp : p.Ok conv token)
    (hbound : p.queued.length < 2 ^ 31) {d : Bytes} (hd : d ∈ q.out) :
    ∃ l', Arq.Steps l l' ∧ Carries conv token { p with kcp := (p.kcp.input d).2 } q l' := by
  obtain ⟨segs, hne, rfl, hsegs⟩ := h.reports d hd
  have hread : ∀ s ∈ segs, s.Readable p.kcp.conv p.kcp.token := by
    rw [hp.conv_eq, hp.token_eq]
    exact fun s hs => (hsegs s hs).1
  obtain ⟨l', hsteps, h'⟩ := h.inputSegs_left hl hbound fun s hs => (hsegs s hs).2
  rw [Kcpcb.input_datagram hne hread]
  obtain ⟨buf, cwnd, incr, heq, -⟩ :=
    (p.kcp.inputSegs segs).afterInput_eq p.kcp.sndUna (Kcpcb.maxAcks none segs)
  have hflight := (p.kcp.inputSegs segs).afterInput_inFlight p.kcp.sndUna (Kcpcb.maxAcks none segs)
  refine ⟨l', hsteps, h'.congr_left rfl ?_ ?_ hflight rfl⟩
  · show ((p.kcp.inputSegs segs).afterInput _ _).sndQueue = _
    rw [heq]
  · show ((p.kcp.inputSegs segs).afterInput _ _).sndNxt = _
    rw [heq]

end Carries

/-- A call, or the arrival of a datagram that `q` put out. -/
def KcpAct.From (q : Peer) : KcpAct → Prop
  | .input d => d ∈ q.out
  | _ => True

namespace Carries

variable {conv token : UInt32} {p q : Peer} {l : Arq.Link Fragment}

/-- Whatever the sender does, it takes steps of selective repeat. -/
theorem step_left (h : Carries conv token p q l) (hl : l.Inv) (hp : p.Ok conv token) {a : KcpAct}
    (ha : a.From q) (hbound : p.queued.length < 2 ^ 31) :
    ∃ l', Arq.Steps l l' ∧ Carries conv token (p.step a) q l' := by
  have idle : ∀ {a : KcpAct}, Peer.accepts p.kcp a = [] → Peer.returns p.kcp a = [] → (p.kcp.step a).2 = [] →
      (p.kcp.step a).1.sndQueue = p.kcp.sndQueue → (p.kcp.step a).1.sndNxt = p.kcp.sndNxt →
      (p.kcp.step a).1.inFlight = p.kcp.inFlight →
      ∃ l', Arq.Steps l l' ∧ Carries conv token (p.step a) q l' := by
    intro a haccepts hreturns hout hqueue hnxt hflight
    rw [Peer.step_eq haccepts hreturns, hout, List.append_nil]
    exact ⟨l, .refl, h.congr_left rfl hqueue hnxt hflight rfl⟩
  cases a with
  | send buffer len =>
    rcases hp.send_cases buffer len with heq | ⟨frags, -, -, heq⟩
    · rw [heq]
      exact ⟨l, .refl, h⟩
    · rw [heq]
      refine ⟨l, .refl, { h with queued := ?_ }⟩
      rw [h.queued, List.append_assoc]
  | recv len =>
    obtain ⟨probe, heq⟩ := p.kcp.recv_eq len.toInt
    have hkcp : (p.kcp.step (.recv len)).1 =
        { p.kcp with toIkcpcb := (ikcpRecv p.kcp.toIkcpcb len.toInt).2.2, probe := probe } := heq
    refine ⟨l, .refl, h.congr_left (List.append_nil _) ?_ ?_ ?_ (List.append_nil _)⟩
    · show (p.kcp.step (.recv len)).1.sndQueue = _
      rw [hkcp]
    · show (p.kcp.step (.recv len)).1.sndNxt = _
      rw [hkcp]
    · show (p.kcp.step (.recv len)).1.inFlight = _
      rw [hkcp]
      rfl
  | input data =>
    rw [Peer.step_eq rfl rfl]
    obtain ⟨l', hsteps, h'⟩ := h.input_left hl hp hbound ha
    exact ⟨l', hsteps, h'.congr_left rfl rfl rfl rfl (List.append_nil _)⟩
  | update current =>
    rw [Peer.step_eq rfl rfl]
    obtain ⟨tsFlush, heq | heq⟩ := p.kcp.update_cases current
    · let kcp : Kcpcb := { p.kcp with current := current, updated := true, tsFlush := tsFlush }
      have hset : { p with kcp := kcp }.Ok conv token := hp.congr rfl rfl rfl rfl rfl rfl hp.sndQueue hp.sndBuf
      have hcarries : Carries conv token { p with kcp := kcp } q l := h.congr_left rfl rfl rfl rfl rfl
      obtain ⟨l', hsteps, h'⟩ := hcarries.flush_left hset hbound
      refine ⟨l', hsteps, ?_⟩
      rw [Kcpcb.step, heq]
      exact h'
    · refine ⟨l, .refl, ?_⟩
      rw [Kcpcb.step, heq]
      exact h.congr_left rfl rfl rfl rfl (List.append_nil _)
  | flush =>
    rw [Peer.step_eq rfl rfl]
    exact h.flush_left hp hbound
  | nodelay nodelay interval resend nc =>
    obtain ⟨_, _, _, _, _, heq⟩ := p.kcp.setNodelay_eq nodelay interval resend nc
    refine idle rfl rfl rfl ?_ ?_ ?_ <;> rw [Kcpcb.step, heq]
    rfl
  | wndsize sndwnd rcvwnd =>
    obtain ⟨sndWnd, rcvWnd, heq, -, -⟩ := p.kcp.wndsize_eq sndwnd rcvwnd
    refine idle rfl rfl rfl ?_ ?_ ?_ <;> rw [Kcpcb.step, heq]
    rfl
  | interval interval => exact idle rfl rfl rfl rfl rfl rfl
  | setmtu mtu =>
    obtain ⟨_, _, _, heq, -⟩ := p.kcp.setmtu_eq mtu
    refine idle rfl rfl rfl ?_ ?_ ?_ <;> rw [Kcpcb.step, heq]
    rfl

end Carries

end EyPS
