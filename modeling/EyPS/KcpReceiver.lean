/-
The receiver's half of a link's direction: whatever call is made on `q`, and whatever of
`p` arrives at it, is steps of `Arq`. A segment in the window is received, the segments in
order are delivered, and what is acknowledged has arrived.
-/
import EyPS.KcpSender

namespace EyPS

/-! ## The insertion -/

theorem mem_insertSeg_of_mem {newseg seg : Seg} {l : List Seg} (h : seg ∈ l) : seg ∈ insertSeg newseg l := by
  induction l with
  | nil => cases h
  | cons s l ih =>
    unfold insertSeg
    split
    · exact h
    split
    · exact List.mem_cons_of_mem _ h
    · rcases List.mem_cons.mp h with rfl | h
      · exact List.mem_cons_self
      · exact List.mem_cons_of_mem _ (ih h)

/-- A segment's number is there after it was inserted, by itself or by the one it repeats. -/
theorem exists_mem_insertSeg (newseg : Seg) (l : List Seg) : ∃ s ∈ insertSeg newseg l, s.sn = newseg.sn := by
  induction l with
  | nil => exact ⟨newseg, List.mem_singleton_self _, rfl⟩
  | cons s l ih =>
    unfold insertSeg
    split
    next hsn => exact ⟨s, List.mem_cons_self, hsn⟩
    split
    · exact ⟨newseg, List.mem_cons_self, rfl⟩
    · obtain ⟨t, ht, hsn⟩ := ih
      exact ⟨t, List.mem_cons_of_mem _ ht, hsn⟩

namespace Carries

variable {conv token : UInt32} {p q : Peer} {l : Arq.Link Fragment}

/-! ## Delivery -/

/-- The segment of the next number moves to `rcv_queue`. -/
theorem deliverOne (h : Carries conv token p q l) (hl : l.Inv) (hbound : p.queued.length < 2 ^ 31) {seg : Seg}
    {buf : List Seg} (hbuf : q.kcp.rcvBuf = seg :: buf) (hsn : seg.sn = q.kcp.rcvNxt) :
    ∃ l', Arq.Step l l' ∧ Carries conv token p { q with kcp := { q.kcp with
      rcvBuf := buf, rcvQueue := q.kcp.rcvQueue ++ [seg], rcvNxt := q.kcp.rcvNxt + 1 } } l' := by
  have hlog := h.log_length_le
  have hle := hl.delivered.length_le
  have hnat : seg.sn.toNat = l.delivered.length := by rw [hsn, h.rcvNxt, toNat_ofNat_of_lt (by omega)]
  have hearly := h.early
  rw [hbuf, List.forall_mem_cons] at hearly
  have hnext := hearly.1
  rw [hnat] at hnext
  refine ⟨_, .deliver l seg.fragment hnext,
    { h with delivered := ?_, rcvNxt := ?_, early := hearly.2, arrived := fun n hn => ?_ }⟩
  · rw [h.delivered, List.append_assoc, List.map_append]
    rfl
  · rw [List.length_append, List.length_singleton, UInt32.ofNat_add, ← h.rcvNxt]
    rfl
  · rw [List.length_append, List.length_singleton]
    rcases h.arrived n hn with hn | ⟨s, hs, rfl⟩
    · exact .inl (by omega)
    · rw [hbuf] at hs
      rcases List.mem_cons.mp hs with rfl | hs
      · exact .inl (by omega)
      · exact .inr ⟨s, hs, rfl⟩

/-- The segments in order move to `rcv_queue`. -/
theorem moved (h : Carries conv token p q l) (hl : l.Inv) (hbound : p.queued.length < 2 ^ 31) :
    ∃ l', Arq.Steps l l' ∧ Carries conv token p { q with kcp := { q.kcp with toIkcpcb := q.kcp.moved } } l' := by
  refine Ikcpcb.moved_induct
    (P := fun cb => ∃ l', Arq.Steps l l' ∧ Carries conv token p { q with kcp := { q.kcp with toIkcpcb := cb } } l')
    (fun cb seg buf hbuf hsn _ hcb => ?_) q.kcp.toIkcpcb ⟨l, .refl, h⟩
  obtain ⟨l', hsteps, h'⟩ := hcb
  obtain ⟨l'', hstep, h''⟩ := h'.deliverOne (hl.steps hsteps) hbound hbuf hsn
  exact ⟨l'', hsteps.tail hstep, h''⟩

/-! ## Arrival -/

/-- A segment in the window goes to `rcv_buf`. -/
theorem insert (h : Carries conv token p q l) {seg : Seg} (hdata : .data seg.sn.toNat seg.fragment ∈ l.wire) :
    Carries conv token p
      { q with kcp := { q.kcp with rcvBuf := (insertSeg seg q.kcp.rcvBuf.reverse).reverse } }
      { l with received := Set.insert (seg.sn.toNat, seg.fragment) l.received } := by
  refine { h with early := fun s hs => ?_, arrived := ?_ }
  · rcases mem_insertSeg (List.mem_reverse.mp hs) with rfl | hs
    · exact Set.mem_insert _ _
    · exact Set.mem_insert_of_mem _ (h.early s (List.mem_reverse.mp hs))
  · rintro n ⟨x, hx | hx⟩
    · obtain ⟨s, hs, hsn⟩ := exists_mem_insertSeg seg q.kcp.rcvBuf.reverse
      obtain ⟨rfl, -⟩ := Prod.mk.inj hx
      exact .inr ⟨s, List.mem_reverse.mpr hs, by rw [hsn]⟩
    · rcases h.arrived n ⟨x, hx⟩ with hn | ⟨s, hs, rfl⟩
      · exact .inl hn
      · exact .inr ⟨s, List.mem_reverse.mpr (mem_insertSeg_of_mem (List.mem_reverse.mpr hs)), rfl⟩

/-- A PUSH that came over the channel; where its number is acknowledged, it has arrived. -/
theorem push (h : Carries conv token p q l) (hl : l.Inv) (hbound : p.queued.length < 2 ^ 31) (seg : Seg)
    (hdata : .data seg.sn.toNat seg.fragment ∈ l.wire) :
    ∃ l', Arq.Steps l l' ∧ (itimediff seg.sn (q.kcp.rcvNxt + q.kcp.rcvWnd) < 0 → l'.Arrived seg.sn.toNat) ∧
      Carries conv token p { q with kcp := { q.kcp with toIkcpcb := ikcpPush q.kcp.toIkcpcb seg } } l' := by
  have hlog := h.log_length_le
  have hle := hl.delivered.length_le
  have hlt := (List.getElem?_eq_some_iff.mp (show l.log[seg.sn.toNat]? = _ from hl.wire _ hdata)).1
  have hnxt : q.kcp.rcvNxt.toNat = l.delivered.length := by rw [h.rcvNxt, toNat_ofNat_of_lt (by omega)]
  have hdiff := itimediff_of_lt (a := seg.sn) (b := q.kcp.rcvNxt) (by omega) (by omega)
  unfold ikcpPush
  by_cases hin : itimediff seg.sn (q.kcp.rcvNxt + q.kcp.rcvWnd) < 0 ∧ 0 ≤ itimediff seg.sn q.kcp.rcvNxt
  · have hkeep : ¬ (0 ≤ itimediff seg.sn (q.kcp.rcvNxt + q.kcp.rcvWnd) ∨ itimediff seg.sn q.kcp.rcvNxt < 0) := by
      omega
    rw [if_pos hin, ikcpParseData, if_neg hkeep]
    have hreceive := Arq.Step.receive l _ _ hdata
    obtain ⟨l', hsteps, h'⟩ := (h.insert hdata).moved (hl.step hreceive) hbound
    have harrived : l'.Tells (.ack seg.sn.toNat) := Arq.Steps.tells hsteps ⟨seg.fragment, Set.mem_insert _ _⟩
    exact ⟨l', hsteps.head hreceive, fun _ => harrived, h'⟩
  · rw [if_neg hin]
    refine ⟨l, .refl, fun hwnd => hl.arrived _ ?_, h⟩
    have hold : ¬ 0 ≤ itimediff seg.sn q.kcp.rcvNxt := fun hnonneg => hin ⟨hwnd, hnonneg⟩
    omega

/-- The receiver takes a segment of the peer, and is to acknowledge it where it is in the window. -/
theorem inputSeg_right (h : Carries conv token p q l) (hl : l.Inv) (hbound : p.queued.length < 2 ^ 31)
    (head : Kcpcb.SegHeader) (data : Bytes)
    (hpush : head.cmd = ikcpCmdPush → .data head.sn.toNat ⟨head.frg.toNat, data⟩ ∈ l.wire) :
    ∃ l', Arq.Steps l l' ∧ Carries conv token p { q with kcp := q.kcp.inputSeg head data } l' := by
  have hrcv := q.kcp.inputSeg_rcv head data
  have hacks := q.kcp.inputSeg_acklist head data
  by_cases hcmd : head.cmd = ikcpCmdPush
  · rw [if_pos hcmd] at hrcv hacks
    obtain ⟨l', hsteps, harrived, h'⟩ := h.push hl hbound ⟨head.frg.toNat, head.sn, data⟩ (hpush hcmd)
    let acks := q.kcp.pushAcks head.sn head.ts
    let ms : Set (Arq.Msg Fragment) := { m | ∃ x ∈ acks, m = .ack x.1.toNat }
    have htells : ∀ m ∈ ms, l'.Tells m := by
      rintro m ⟨x, hx, rfl⟩
      simp only [acks, Kcpcb.pushAcks] at hx
      split at hx
      next hwnd =>
        obtain rfl := List.mem_singleton.mp hx
        exact harrived hwnd
      · cases hx
    refine ⟨_, hsteps.tail (.say l' ms htells), (h'.say ms).congr_right rfl (congrArg Ikcpcb.rcvQueue hrcv)
      (congrArg Ikcpcb.rcvNxt hrcv) (congrArg Ikcpcb.rcvBuf hrcv) (fun x hx => ?_) (h'.say ms).reports⟩
    replace hx : x ∈ (q.kcp.inputSeg head data).acklist := hx
    rw [hacks] at hx
    rcases List.mem_append.mp hx with hx | hx
    · exact (h'.say ms).acklist x hx
    · exact .inr ⟨x, hx, rfl⟩
  · rw [if_neg hcmd] at hrcv hacks
    rw [List.append_nil] at hacks
    refine ⟨l, .refl, h.congr_right rfl (congrArg Ikcpcb.rcvQueue hrcv) (congrArg Ikcpcb.rcvNxt hrcv)
      (congrArg Ikcpcb.rcvBuf hrcv) ?_ h.reports⟩
    show ∀ x ∈ (q.kcp.inputSeg head data).acklist, _
    rw [hacks]
    exact h.acklist

theorem inputSegs_right (h : Carries conv token p q l) (hl : l.Inv) (hbound : p.queued.length < 2 ^ 31)
    {segs : List IkcpSeg} (hsegs : ∀ s ∈ segs, s.frg < 256 ∧
      (s.cmd = ikcpCmdPush → .data s.sn.toNat s.seg.fragment ∈ l.wire)) :
    ∃ l', Arq.Steps l l' ∧ Carries conv token p { q with kcp := q.kcp.inputSegs segs } l' := by
  induction segs generalizing q l with
  | nil => exact ⟨l, .refl, h⟩
  | cons s segs ih =>
    obtain ⟨⟨hfrg, hpush⟩, hsegs⟩ := List.forall_mem_cons.mp hsegs
    have hhead : s.head.cmd = ikcpCmdPush → .data s.head.sn.toNat ⟨s.head.frg.toNat, s.data⟩ ∈ l.wire := by
      intro hcmd
      have hnat : s.head.frg.toNat = s.frg := UInt8.toNat_ofNat_of_lt' hfrg
      rw [hnat]
      exact hpush hcmd
    obtain ⟨l', hsteps, h'⟩ := h.inputSeg_right hl hbound s.head s.data hhead
    obtain ⟨l'', hsteps', h''⟩ := ih h' (hl.steps hsteps) fun t ht =>
      ⟨(hsegs t ht).1, fun hc => hsteps.wire_subset ((hsegs t ht).2 hc)⟩
    exact ⟨l'', hsteps.trans hsteps', h''⟩

/-- The receiver takes a datagram of the peer. -/
theorem input_right (h : Carries conv token p q l) (hl : l.Inv) (hq : q.Ok conv token)
    (hbound : p.queued.length < 2 ^ 31) {d : Bytes} (hd : d ∈ p.out) :
    ∃ l', Arq.Steps l l' ∧ Carries conv token p { q with kcp := (q.kcp.input d).2 } l' := by
  obtain ⟨segs, hne, rfl, hsegs⟩ := h.data d hd
  have hread : ∀ s ∈ segs, s.Readable q.kcp.conv q.kcp.token := by
    rw [hq.conv_eq, hq.token_eq]
    exact fun s hs => (hsegs s hs).1
  obtain ⟨l', hsteps, h'⟩ := h.inputSegs_right hl hbound fun s hs => (hsegs s hs).2
  rw [Kcpcb.input_datagram hne hread]
  obtain ⟨buf, cwnd, incr, heq, -⟩ :=
    (q.kcp.inputSegs segs).afterInput_eq q.kcp.sndUna (Kcpcb.maxAcks none segs)
  rw [heq]
  exact ⟨l', hsteps, h'.congr_right rfl rfl rfl rfl h'.acklist h'.reports⟩

/-! ## The receiver's calls -/

/-- The receiver flushes: it acknowledges what `acklist` holds, and tells what it delivered. -/
theorem flush_right (h : Carries conv token p q l) (hq : q.Ok conv token) (hl : l.Inv)
    (hbound : p.queued.length < 2 ^ 31) :
    ∃ l', Arq.Steps l l' ∧
      Carries conv token p { q with kcp := q.kcp.flush.2, out := q.out ++ q.kcp.flush.1 } l' := by
  have hlog := h.log_length_le
  have hle := hl.delivered.length_le
  cases hu : q.kcp.updated with
  | false =>
    rw [Kcpcb.flush_idle hu, List.append_nil]
    exact ⟨l, .refl, h⟩
  | true =>
    have hrcv := q.kcp.flush_rcv
    have hnxt : q.kcp.rcvNxt.toNat = l.delivered.length := by rw [h.rcvNxt, toNat_ofNat_of_lt (by omega)]
    have hacks : q.kcp.flush.2.acklist = [] := by
      obtain ⟨_, _, _, _, heq⟩ := Kcpcb.flush_eq hu
      rw [heq]
    have htells : ∀ m ∈ ({.una l.delivered.length} : Set (Arq.Msg Fragment)), l.Tells m := by
      rintro m rfl
      exact Nat.le_refl _
    have hsaid := h.say {.una l.delivered.length}
    refine ⟨_, .single (.say l _ htells), hsaid.congr_right rfl (congrArg Ikcpcb.rcvQueue hrcv)
      (congrArg Ikcpcb.rcvNxt hrcv) (congrArg Ikcpcb.rcvBuf hrcv) ?_ fun d hd => ?_⟩
    · show ∀ x ∈ q.kcp.flush.2.acklist, _
      rw [hacks]
      simp
    · rcases List.mem_append.mp hd with hd | hd
      · exact hsaid.reports d hd
      · obtain ⟨segs, hne, rfl, hsegs⟩ := Kcpcb.mem_flush hu hd
        refine ⟨segs, hne, rfl, fun s hs => ?_⟩
        obtain ⟨hread, -, huna, -, hack⟩ := hq.flushSegs s (hsegs s hs)
        refine ⟨hread, .inr ?_, fun hc => ?_⟩
        · rw [huna, hnxt]
          exact Set.mem_singleton _
        · obtain ⟨x, hx, hsn⟩ := hack hc
          rw [hsn]
          exact hsaid.acklist x hx

/-- A message is taken out, or nothing is; then the segments in order move up. -/
theorem recv_right (h : Carries conv token p q l) (hl : l.Inv) (hbound : p.queued.length < 2 ^ 31) (len : Int32) :
    ∃ l', Arq.Steps l l' ∧ Carries conv token p (q.step (.recv len)) l' := by
  obtain ⟨probe, heq | heq | ⟨m, -, heq⟩⟩ := q.recv_cases len
  · rw [heq]
    exact ⟨l, .refl, h.congr_right rfl rfl rfl rfl h.acklist h.reports⟩
  · rw [heq]
    obtain ⟨l', hsteps, h'⟩ := h.moved hl hbound
    exact ⟨l', hsteps, h'.congr_right rfl rfl rfl rfl h'.acklist h'.reports⟩
  · rw [heq]
    let q' : Peer := { q with
      kcp := { q.kcp with rcvQueue := (mergeFragments q.kcp.rcvQueue).2 }
      taken := q.taken ++ (headFragments q.kcp.rcvQueue).map Seg.fragment }
    have hcut : Carries conv token p q' l := by
      refine { h with delivered := ?_ }
      rw [h.delivered, List.append_assoc, ← List.map_append, mergeFragments_snd]
    obtain ⟨l', hsteps, h'⟩ := hcut.moved hl hbound
    exact ⟨l', hsteps, h'.congr_right rfl rfl rfl rfl h'.acklist h'.reports⟩

/-- Whatever the receiver does, it takes steps of selective repeat. -/
theorem step_right (h : Carries conv token p q l) (hl : l.Inv) (hq : q.Ok conv token) {a : KcpAct}
    (ha : a.From p) (hbound : p.queued.length < 2 ^ 31) :
    ∃ l', Arq.Steps l l' ∧ Carries conv token p (q.step a) l' := by
  cases a with
  | send buffer len =>
    refine ⟨l, .refl, ?_⟩
    rcases hq.send_cases buffer len with heq | ⟨frags, -, -, heq⟩
    · rw [heq]
      exact h
    · rw [heq]
      exact h.congr_right rfl rfl rfl rfl h.acklist h.reports
  | recv len => exact h.recv_right hl hbound len
  | input data =>
    rw [Peer.step_eq rfl rfl]
    obtain ⟨l', hsteps, h'⟩ := h.input_right hl hq hbound ha
    refine ⟨l', hsteps, h'.congr_right rfl rfl rfl rfl h'.acklist ?_⟩
    rw [show (q.kcp.step (.input data)).2 = [] from rfl, List.append_nil]
    exact h'.reports
  | update current =>
    rw [Peer.step_eq rfl rfl]
    obtain ⟨tsFlush, heq | heq⟩ := q.kcp.update_cases current
    · let kcp : Kcpcb := { q.kcp with current := current, updated := true, tsFlush := tsFlush }
      have hset : { q with kcp := kcp }.Ok conv token := hq.congr rfl rfl rfl rfl rfl rfl hq.sndQueue hq.sndBuf
      have hcarries : Carries conv token p { q with kcp := kcp } l :=
        h.congr_right rfl rfl rfl rfl h.acklist h.reports
      obtain ⟨l', hsteps, h'⟩ := hcarries.flush_right hset hl hbound
      refine ⟨l', hsteps, ?_⟩
      rw [Kcpcb.step, heq]
      exact h'
    · refine ⟨l, .refl, ?_⟩
      rw [Kcpcb.step, heq, List.append_nil]
      exact h.congr_right rfl rfl rfl rfl h.acklist h.reports
  | flush =>
    rw [Peer.step_eq rfl rfl]
    exact h.flush_right hq hl hbound
  | nodelay nodelay interval resend nc =>
    obtain ⟨_, _, _, _, _, heq⟩ := q.kcp.setNodelay_eq nodelay interval resend nc
    rw [Peer.step_eq rfl rfl, Kcpcb.step, heq, List.append_nil]
    exact ⟨l, .refl, h.congr_right rfl rfl rfl rfl h.acklist h.reports⟩
  | wndsize sndwnd rcvwnd =>
    obtain ⟨sndWnd, rcvWnd, heq, -, -⟩ := q.kcp.wndsize_eq sndwnd rcvwnd
    rw [Peer.step_eq rfl rfl, Kcpcb.step, heq, List.append_nil]
    exact ⟨l, .refl, h.congr_right rfl rfl rfl rfl h.acklist h.reports⟩
  | interval interval =>
    rw [Peer.step_eq rfl rfl, Kcpcb.step, List.append_nil]
    exact ⟨l, .refl, h.congr_right rfl rfl rfl rfl h.acklist h.reports⟩
  | setmtu mtu =>
    obtain ⟨_, _, _, heq, -⟩ := q.kcp.setmtu_eq mtu
    rw [Peer.step_eq rfl rfl, Kcpcb.step, heq, List.append_nil]
    exact ⟨l, .refl, h.congr_right rfl rfl rfl rfl h.acklist h.reports⟩

end Carries

end EyPS
