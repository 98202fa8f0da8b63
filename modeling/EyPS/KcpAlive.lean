/-
What a KCP control block needs to go on, over whole runs: windows that are open, a
congestion window after every flush, and what an acknowledgement, a question for the
window and its answer do.

A receive window is below 65536: it travels in 16 bits, and one of 65536 is told as 0.
-/
import EyPS.KcpDelivery

namespace EyPS

namespace Kcpcb

/-! ## What a flush keeps and sets -/

/-- The loop changes the two lists and the next number. -/
theorem moveQueue_eq (cwnd : UInt32) (kcp : Kcpcb) :
    ∃ queue buf nxt, moveQueue cwnd kcp kcp.sndQueue =
      { kcp with sndQueue := queue, sndBuf := buf, sndNxt := nxt } := by
  refine moveQueue_induct (P := fun k => ∃ queue buf nxt, k =
    { kcp with sndQueue := queue, sndBuf := buf, sndNxt := nxt }) (fun k fragment queue _ _ hk => ?_) kcp
    ⟨_, _, _, rfl⟩
  obtain ⟨_, _, _, rfl⟩ := hk
  exact ⟨_, _, _, rfl⟩

theorem numbered_probeWindow (kcp : Kcpcb) :
    ∃ queue buf nxt, kcp.numbered = { kcp.probeWindow with sndQueue := queue, sndBuf := buf, sndNxt := nxt } := by
  obtain ⟨tsProbe, probeWait, probe, hprobe⟩ := kcp.probeWindow_eq
  obtain ⟨queue, buf, nxt, h⟩ := moveQueue_eq kcp.sendWindow kcp.probeWindow
  have hqueue : kcp.probeWindow.sndQueue = kcp.sndQueue := by rw [hprobe]
  rw [hqueue] at h
  exact ⟨queue, buf, nxt, h⟩

/-- Numbering adds to the end of `snd_buf`, and no segment is lost in between. -/
theorem numbered_prefix (kcp : Kcpcb) :
    kcp.sndBuf <+: kcp.numbered.sndBuf ∧ kcp.numbered.waitsnd = kcp.waitsnd := by
  obtain ⟨tsProbe, probeWait, probe, hprobe⟩ := kcp.probeWindow_eq
  unfold numbered
  rw [hprobe]
  refine moveQueue_induct (P := fun k => kcp.sndBuf <+: k.sndBuf ∧ k.waitsnd = kcp.waitsnd)
    (fun k fragment queue hq _ hk => ?_)
    { kcp with tsProbe := tsProbe, probeWait := probeWait, probe := probe } ⟨List.prefix_refl _, rfl⟩
  refine ⟨hk.1.trans (List.prefix_append _ _), ?_⟩
  rw [← hk.2, waitsnd, waitsnd, hq, List.length_cons]
  show (k.sndBuf ++ [k.numberSeg fragment]).length + queue.length = _
  rw [List.length_append, List.length_singleton]
  omega

theorem flush_waitsnd (kcp : Kcpcb) : kcp.flush.2.waitsnd = kcp.waitsnd := by
  cases hu : kcp.updated with
  | false => rw [flush_idle hu]
  | true =>
    obtain ⟨_, _, _, _, heq⟩ := flush_eq hu
    rw [heq, waitsnd, List.length_map]
    exact kcp.numbered_prefix.2

/-- A flush that runs leaves a congestion window of at least 1. -/
theorem flush_cwnd {kcp : Kcpcb} (hu : kcp.updated = true) : kcp.flush.2.cwnd ≠ 0 := by
  have hmin : ∀ k : Kcpcb, (if k.cwnd < 1 then { k with cwnd := 1, incr := k.mss } else k).cwnd ≠ 0 := by
    intro k
    split
    · exact show (1 : UInt32) ≠ 0 by decide
    next hge =>
      intro hzero
      rw [hzero] at hge
      exact hge (by decide)
  unfold flush
  rw [if_neg (by simp [hu])]
  exact hmin _

theorem flush_sends {kcp : Kcpcb} (hu : kcp.updated = true) {s : IkcpSeg} (hs : s ∈ kcp.flushSegs) :
    ∃ d ∈ kcp.flush.1, ∃ segs, d = datagram segs ∧ s ∈ segs ∧ ∀ t ∈ segs, t ∈ kcp.flushSegs := by
  obtain ⟨parts, hout, -, hflat⟩ := flush_packs hu
  rw [← hflat] at hs
  obtain ⟨segs, hmem, hs⟩ := List.mem_flatten.mp hs
  refine ⟨datagram segs, ?_, segs, rfl, hs, fun t ht => ?_⟩
  · rw [hout]
    exact List.mem_map_of_mem hmem
  · rw [← hflat]
    exact List.mem_flatten.mpr ⟨segs, hmem, ht⟩

/-! ## The windows stay open -/

/-- The control block is to tell its window. -/
def Asked (kcp : Kcpcb) : Prop := kcp.probe &&& ikcpAskTell = ikcpAskTell

theorem or_and_self (probe bits : UInt32) : (probe ||| bits) &&& bits = bits := by
  refine UInt32.toBitVec_inj.mp ?_
  ext i
  simp
  tauto

theorem asked_or (kcp : Kcpcb) : { kcp with probe := kcp.probe ||| ikcpAskTell }.Asked := or_and_self _ _

theorem Asked.or {kcp : Kcpcb} (h : kcp.Asked) (bits : UInt32) : { kcp with probe := kcp.probe ||| bits }.Asked := by
  unfold Asked at h ⊢
  rw [← h]
  refine UInt32.toBitVec_inj.mp ?_
  ext i
  simp
  tauto

/-- A peer that asks for the window is to be told, whatever else arrives with it. -/
theorem inputSeg_asked (kcp : Kcpcb) (head : SegHeader) (data : Bytes)
    (h : head.cmd = ikcpCmdWask ∨ kcp.Asked) : (kcp.inputSeg head data).Asked := by
  have old : head.cmd ≠ ikcpCmdWask → kcp.Asked := fun hne => h.resolve_left hne
  rcases kcp.inputSeg_cases head data with ⟨hcmd, srtt, rttval, rto, heq⟩ | ⟨hcmd, heq⟩ | ⟨hack, hpush, -⟩
  · obtain ⟨buf, hbuf, -⟩ := parseAck_eq
      { kcp.takeHeader head with rxSrtt := srtt, rxRttval := rttval, rxRto := rto } head.sn
    rw [heq, hbuf]
    exact old (by rw [hcmd]; decide)
  · rw [heq]
    exact old (by rw [hcmd]; decide)
  · unfold inputSeg
    rw [if_neg hack, if_neg hpush]
    split
    · exact asked_or _
    next hne => exact old hne

/-- What keeps a control block able to send and to receive. -/
structure Alive (kcp : Kcpcb) : Prop where
  send : kcp.Windowed (2 ^ 31 - 1)
  sndWnd : kcp.sndWnd ≠ 0
  recv : RecvOk 65535 kcp.toIkcpcb

theorem Alive.create (conv token : UInt32) : (create conv token).Alive where
  send := .create conv token (by decide)
  sndWnd := show ikcpWndSnd ≠ 0 by decide
  recv := recvOk_create (by decide) conv token

theorem flush_wnds (kcp : Kcpcb) : kcp.flush.2.sndWnd = kcp.sndWnd ∧ kcp.flush.2.rmtWnd = kcp.rmtWnd := by
  cases hu : kcp.updated with
  | false =>
    rw [flush_idle hu]
    exact ⟨rfl, rfl⟩
  | true =>
    obtain ⟨_, _, _, _, heq⟩ := flush_eq hu
    obtain ⟨_, _, _, _, _, _, hnum⟩ := kcp.numbered_eq
    rw [heq, hnum]
    exact ⟨rfl, rfl⟩

theorem step_sndWnd (kcp : Kcpcb) (a : KcpAct) : (kcp.step a).1.sndWnd = kcp.sndWnd ∨ (kcp.step a).1.sndWnd ≠ 0 := by
  cases a with
  | send buffer len =>
    obtain ⟨queue, heq⟩ := kcp.send_eq buffer len.toInt
    rw [Kcpcb.step, heq]
    exact .inl rfl
  | recv len =>
    obtain ⟨probe, heq⟩ := kcp.recv_eq len.toInt
    rw [Kcpcb.step, heq]
    exact .inl rfl
  | input data => exact .inl (kcp.input_sameSend data).sndWnd
  | update current =>
    obtain ⟨tsFlush, heq | heq⟩ := kcp.update_cases current
    · rw [Kcpcb.step, heq]
      exact .inl (flush_wnds _).1
    · rw [Kcpcb.step, heq]
      exact .inl rfl
  | flush => exact .inl kcp.flush_wnds.1
  | nodelay nodelay interval resend nc =>
    obtain ⟨_, _, _, _, _, heq⟩ := kcp.setNodelay_eq nodelay interval resend nc
    rw [Kcpcb.step, heq]
    exact .inl rfl
  | wndsize sndwnd rcvwnd =>
    obtain ⟨sndWnd, rcvWnd, heq, hsnd, -⟩ := kcp.wndsize_eq sndwnd rcvwnd
    rw [Kcpcb.step, heq]
    rcases hsnd with rfl | ⟨hpos, rfl⟩
    · exact .inl rfl
    · right
      have hnat := toNat_toUInt32_of_pos hpos
      have hint := Int32.lt_iff_toInt_lt.mp hpos
      intro hzero
      replace hzero : sndwnd.toUInt32 = 0 := hzero
      rw [hzero] at hnat
      have hz : (0 : Int32).toInt = 0 := rfl
      have hz' : (0 : UInt32).toNat = 0 := rfl
      omega
  | interval interval => exact .inl rfl
  | setmtu mtu =>
    obtain ⟨_, _, _, heq, -⟩ := kcp.setmtu_eq mtu
    rw [Kcpcb.step, heq]
    exact .inl rfl

theorem Alive.step {kcp : Kcpcb} (h : kcp.Alive) {a : KcpAct} (ha : RcvWndLe 65535 a) : (kcp.step a).1.Alive := by
  refine ⟨h.send.step ?_, ?_, step_recvOk (by decide) (by decide) h.recv ha⟩
  · cases a with
    | wndsize sndwnd rcvwnd =>
      have hlt := sndwnd.toInt_lt
      show sndwnd.toInt ≤ ((2 ^ 31 - 1 : Nat) : Int)
      omega
    | _ => trivial
  · rcases kcp.step_sndWnd a with heq | hne
    · rw [heq]
      exact h.sndWnd
    · exact hne

/-! ## Acknowledgements -/

theorem inputSeg_rcvWnd (kcp : Kcpcb) (head : SegHeader) (data : Bytes) :
    (kcp.inputSeg head data).rcvWnd = kcp.rcvWnd := by
  have hpush : ∀ cb seg, (ikcpPush cb seg).rcvWnd = cb.rcvWnd := by
    intro cb seg
    unfold ikcpPush
    split
    · unfold ikcpParseData
      split <;> rfl
    · rfl
  show (kcp.inputSeg head data).toIkcpcb.rcvWnd = _
  rw [inputSeg_rcv]
  split
  · exact hpush _ _
  · rfl

theorem inputSegs_acklist (kcp : Kcpcb) (segs : List IkcpSeg) :
    ∀ x ∈ kcp.acklist, x ∈ (kcp.inputSegs segs).acklist := by
  induction segs generalizing kcp with
  | nil => exact fun x hx => hx
  | cons s segs ih =>
    intro x hx
    refine ih _ x ?_
    rw [inputSeg_acklist]
    exact List.mem_append_left _ hx

theorem inputSegs_sameSend (kcp : Kcpcb) (segs : List IkcpSeg) : kcp.SameSend (kcp.inputSegs segs) := by
  induction segs generalizing kcp with
  | nil => exact .refl kcp
  | cons s segs ih => exact (kcp.inputSeg_sameSend s.head s.data).trans (ih _)

/-- The acknowledgement of the oldest segment takes it out. -/
theorem inputSeg_acked {kcp : Kcpcb} (head : SegHeader) (data : Bytes) (hcmd : head.cmd = ikcpCmdAck)
    (htail : ∀ s ∈ kcp.inFlight.tail, s.sn ≠ head.sn) (hnxt : itimediff head.sn kcp.sndNxt < 0) :
    ∀ s ∈ (kcp.inputSeg head data).inFlight, s.sn ≠ head.sn := by
  rcases kcp.inputSeg_cases head data with ⟨-, srtt, rttval, rto, heq⟩ | ⟨hpush, -⟩ | ⟨hack, -, -⟩
  · let k : Kcpcb := { kcp.takeHeader head with rxSrtt := srtt, rxRttval := rttval, rxRto := rto }
    have hsub : k.inFlight.Sublist kcp.inFlight := (parseUna_sublist head.una kcp.sndBuf).map IkcpSeg.seg
    have hflight : (kcp.inputSeg head data).inFlight = (k.parseAck head.sn).inFlight := by rw [heq]; rfl
    rw [hflight]
    cases hbuf : k.sndBuf with
    | nil =>
      obtain ⟨buf, hparse, rfl | rfl⟩ := k.parseAck_eq head.sn
      · rw [hparse]
        simp [inFlight, hbuf]
      · rw [hparse]
        simp [inFlight, hbuf, removeAcked]
    | cons first rest =>
      have hkflight : k.inFlight = first.seg :: rest.map IkcpSeg.seg := by rw [inFlight, hbuf]; rfl
      have hrest : ∀ s ∈ rest.map IkcpSeg.seg, s.sn ≠ head.sn := by
        intro s hs
        refine htail s (hsub.tail.subset ?_)
        rw [hkflight]
        exact hs
      by_cases hfirst : head.sn = first.sn
      · have huna : k.sndUna = first.sn := by
          have hshrink : k.sndUna = k.firstSn :=
            ({ kcp with rmtWnd := head.wnd.toUInt32 }.parseUna head.una).shrinkBuf_sndUna
          rw [hshrink, firstSn, hkflight]
          rfl
        have hin : ¬ (itimediff head.sn k.sndUna < 0 ∨ 0 ≤ itimediff head.sn k.sndNxt) := by
          have hsame : k.sndNxt = kcp.sndNxt := rfl
          rw [huna, hfirst, itimediff_self, ← hfirst, hsame]
          omega
        rw [parseAck, if_neg hin, inFlight, hbuf, removeAcked, if_pos hfirst]
        exact hrest
      · have hall : ∀ s ∈ k.inFlight, s.sn ≠ head.sn := by
          rw [hkflight, List.forall_mem_cons]
          exact ⟨fun h => hfirst h.symm, hrest⟩
        obtain ⟨buf, hparse, rfl | rfl⟩ := k.parseAck_eq head.sn
        · rw [hparse]
          exact hall
        · rw [hparse]
          exact fun s hs => hall s (((removeAcked_sublist head.sn k.sndBuf).map IkcpSeg.seg).subset hs)
  · rw [hcmd] at hpush
    exact absurd hpush (by decide)
  · exact absurd hcmd hack

theorem inputSegs_acked {kcp : Kcpcb} {segs : List IkcpSeg} {t : IkcpSeg} (ht : t ∈ segs) (hcmd : t.cmd = ikcpCmdAck)
    (htail : ∀ s ∈ kcp.inFlight.tail, s.sn ≠ t.sn) (hnxt : itimediff t.sn kcp.sndNxt < 0) :
    ∀ s ∈ (kcp.inputSegs segs).inFlight, s.sn ≠ t.sn := by
  induction segs generalizing kcp with
  | nil => cases ht
  | cons seg segs ih =>
    have hsame := kcp.inputSeg_sameSend seg.head seg.data
    rcases List.mem_cons.mp ht with rfl | ht
    · intro s hs
      have hlast := (inputSegs_sameSend (kcp.inputSeg t.head t.data) segs).sndBuf
      exact inputSeg_acked t.head t.data hcmd htail hnxt s (hlast.subset hs)
    · refine ih ht (fun s hs => htail s (hsame.sndBuf.tail.subset hs)) ?_
      rw [hsame.sndNxt]
      exact hnxt

/-! ## The peer's window -/

theorem inputSegs_asked {kcp : Kcpcb} {segs : List IkcpSeg} (h : (∃ t ∈ segs, t.cmd = ikcpCmdWask) ∨ kcp.Asked) :
    (kcp.inputSegs segs).Asked := by
  induction segs generalizing kcp with
  | nil =>
    rcases h with ⟨t, ht, -⟩ | hasked
    · cases ht
    · exact hasked
  | cons s segs ih =>
    refine ih ?_
    rcases h with ⟨t, ht, hcmd⟩ | hasked
    · rcases List.mem_cons.mp ht with rfl | ht
      · exact .inr (kcp.inputSeg_asked t.head t.data (.inl hcmd))
      · exact .inl ⟨t, ht, hcmd⟩
    · exact .inr (kcp.inputSeg_asked s.head s.data (.inr hasked))

theorem inputSegs_rmtWnd {segs : List IkcpSeg} {wnd : UInt32} (kcp : Kcpcb) (hne : segs ≠ [])
    (h : ∀ t ∈ segs, t.wnd = wnd) : (kcp.inputSegs segs).rmtWnd = wnd.toUInt16.toUInt32 := by
  induction segs generalizing kcp with
  | nil => exact absurd rfl hne
  | cons s segs ih =>
    obtain ⟨hs, h⟩ := List.forall_mem_cons.mp h
    cases segs with
    | nil =>
      show (kcp.inputSeg s.head s.data).rmtWnd = _
      rw [inputSeg_rmtWnd, ← hs]
      rfl
    | cons t segs => exact ih (kcp.inputSeg s.head s.data) (List.cons_ne_nil t segs) h

/-- All that a flush sends tells the same window. -/
theorem flushSegs_wnd {kcp : Kcpcb} : ∀ t ∈ kcp.flushSegs, t.wnd = kcp.wndUnused := by
  intro t ht
  rcases mem_flushSegs ht with ⟨x, -, rfl⟩ | ⟨sn, ts, rfl | rfl⟩ | ⟨segment, -, d, -, rfl⟩
  · rfl
  · rfl
  · rfl
  · obtain ⟨_, _, _, _, _, _, hnum⟩ := kcp.numbered_eq
    show kcp.numbered.wndUnused = _
    rw [hnum]
    rfl

/-- A window that is told is open while there is room, below 65536. -/
theorem wndUnused_open {kcp : Kcpcb} (hroom : kcp.rcvQueue.length < kcp.rcvWnd.toNat)
    (hle : kcp.rcvWnd.toNat ≤ 65535) : kcp.wndUnused.toUInt16.toUInt32 ≠ 0 := by
  have hlen : (UInt32.ofNat kcp.rcvQueue.length).toNat = kcp.rcvQueue.length := by
    rw [UInt32.toNat_ofNat']
    omega
  have hsub := UInt32.toNat_sub kcp.rcvWnd (UInt32.ofNat kcp.rcvQueue.length)
  intro hzero
  have hnat := congrArg UInt32.toNat hzero
  rw [UInt16.toNat_toUInt32, UInt32.toNat_toUInt16, wndUnused, if_pos hroom] at hnat
  have hz : (0 : UInt32).toNat = 0 := rfl
  omega

/-- Where the window is shut and the time to ask has come, a flush asks. -/
theorem probe_asks {kcp : Kcpcb} (hrmt : kcp.rmtWnd = 0) (hwait : kcp.probeWait ≠ 0)
    (hcurrent : kcp.current = kcp.tsProbe) : ∃ t ∈ kcp.flushSegs, t.cmd = ikcpCmdWask := by
  have hprobe : kcp.probeWindow.probe = kcp.probe ||| ikcpAskSend := by
    rw [probeWindow, if_pos hrmt, if_neg hwait, if_pos (by rw [hcurrent, itimediff_self])]
  have hbit : kcp.probeWindow.probe &&& ikcpAskSend ≠ 0 := by
    rw [hprobe, or_and_self]
    decide
  let x := kcp.acklist.getLastD (0, 0)
  refine ⟨kcp.ctlSeg ikcpCmdWask x.1 x.2, List.mem_append_right _ (List.mem_append_left _ ?_), rfl⟩
  rw [probeSegs, if_pos hbit]
  exact List.mem_append_left _ (List.mem_singleton_self _)

/-- A flush tells the window it is asked for. -/
theorem asked_tells {kcp : Kcpcb} (h : kcp.Asked) : ∃ t, t ∈ kcp.flushSegs := by
  have hprobe : kcp.probeWindow.probe &&& ikcpAskTell ≠ 0 := by
    have hasked : kcp.probeWindow.probe &&& ikcpAskTell = ikcpAskTell := by
      have hprobe : kcp.probeWindow.probe = kcp.probe ∨ kcp.probeWindow.probe = kcp.probe ||| ikcpAskSend := by
        unfold probeWindow
        split
        · split
          · exact .inl rfl
          · split
            · exact .inr rfl
            · exact .inl rfl
        · exact .inl rfl
      rcases hprobe with heq | heq
      · rw [heq, h]
      · rw [heq]
        exact h.or ikcpAskSend
    rw [hasked]
    decide
  let x := kcp.acklist.getLastD (0, 0)
  refine ⟨kcp.ctlSeg ikcpCmdWins x.1 x.2, List.mem_append_right _ (List.mem_append_left _ ?_)⟩
  rw [probeSegs, if_pos hprobe]
  exact List.mem_append_right _ (List.mem_singleton_self _)

/-- The first flush with a shut window sets the time to ask. -/
theorem flush_probeWait {kcp : Kcpcb} (hu : kcp.updated = true) (hrmt : kcp.rmtWnd = 0) (hwait : kcp.probeWait = 0) :
    kcp.flush.2.probeWait ≠ 0 := by
  obtain ⟨_, _, _, _, heq⟩ := flush_eq hu
  obtain ⟨_, _, _, hnum⟩ := kcp.numbered_probeWindow
  rw [heq, hnum, probeWindow, if_pos hrmt, if_pos hwait]
  exact show ikcpProbeInit ≠ 0 by decide

/-! ## The first number -/

theorem sendWindow_ne_zero {kcp : Kcpcb} (hsnd : kcp.sndWnd ≠ 0) (hrmt : kcp.rmtWnd ≠ 0) (hcwnd : kcp.cwnd ≠ 0) :
    kcp.sendWindow ≠ 0 := by
  have hmin : ∀ a b : UInt32, a ≠ 0 → b ≠ 0 → min a b ≠ 0 := by
    intro a b ha hb
    show (if a ≤ b then a else b) ≠ 0
    split
    · exact ha
    · exact hb
  unfold sendWindow
  dsimp only
  split
  · exact hmin _ _ hcwnd (hmin _ _ hsnd hrmt)
  · exact hmin _ _ hsnd hrmt

/-- With an open window and nothing in flight, a fragment is numbered. -/
theorem numbered_ne_nil {kcp : Kcpcb} (h : kcp.Alive) (hrmt : kcp.rmtWnd ≠ 0) (hcwnd : kcp.cwnd ≠ 0)
    (hbuf : kcp.sndBuf = []) (hqueue : kcp.sndQueue ≠ []) : kcp.numbered.sndBuf ≠ [] := by
  have hne := sendWindow_ne_zero h.sndWnd hrmt hcwnd
  have hle := kcp.sendWindow_le.2
  have hrmtLe := h.send.rmtWnd
  have huna : kcp.sndUna = kcp.sndNxt := by
    rw [h.send.window.una, firstSn, inFlight, hbuf]
    rfl
  have hpos : 0 < kcp.sendWindow.toNat := by
    refine Nat.pos_of_ne_zero fun hzero => hne (UInt32.toNat_inj.mp ?_)
    rw [hzero]
    rfl
  obtain ⟨tsProbe, probeWait, probe, hprobe⟩ := kcp.probeWindow_eq
  cases hq : kcp.sndQueue with
  | nil => exact absurd hq hqueue
  | cons fragment queue =>
    have hroom : itimediff kcp.sndNxt (kcp.sndUna + kcp.sendWindow) < 0 := by
      have hdist : (kcp.sndNxt - kcp.sndUna).toNat = 0 := by rw [huna, UInt32.sub_self]; rfl
      rw [itimediff_add_neg_iff (by omega) (by omega)]
      omega
    unfold numbered
    rw [hprobe, hq, moveQueue, if_pos hroom]
    let k : Kcpcb := { kcp with tsProbe := tsProbe, probeWait := probeWait, probe := probe }
    refine moveQueue_induct (P := fun k => k.sndBuf ≠ []) (fun k fragment queue _ _ _ => ?_)
      (k.moveOne fragment queue) ?_
    · exact List.append_ne_nil_of_right_ne_nil _ (List.cons_ne_nil _ _)
    · exact List.append_ne_nil_of_right_ne_nil _ (List.cons_ne_nil _ _)

end Kcpcb

end EyPS
