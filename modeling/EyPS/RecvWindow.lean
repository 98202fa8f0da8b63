/-
The receive side of KCP over whole runs: `rcv_buf` holds segments in the order of their
numbers, each once, all in the window from `rcv_nxt` on, and with `rcv_queue` never more
than the window. What a peer can make a control block hold is bounded by that.

It holds whatever datagrams arrive and however often the numbers wrap.
-/
import EyPS.Fragments

namespace EyPS

/-- How far on from `nxt` a segment is. -/
def Seg.ahead (nxt : UInt32) (seg : Seg) : Nat := (seg.sn - nxt).toNat

/-! ## The insertion -/

/-- Over a list that descends, as `rcv_buf` does from its tail, a segment goes to its place. -/
theorem insertSeg_descends {nxt : UInt32} {newseg : Seg} (hnew : newseg.ahead nxt < 2 ^ 31) {l : List Seg}
    (hl : ∀ s ∈ l, s.ahead nxt < 2 ^ 31) (h : l.Pairwise fun s t => t.ahead nxt < s.ahead nxt) :
    (insertSeg newseg l).Pairwise fun s t => t.ahead nxt < s.ahead nxt := by
  induction l with
  | nil => exact List.pairwise_singleton _ _
  | cons s l ih =>
    obtain ⟨hs, hl⟩ := List.forall_mem_cons.mp hl
    obtain ⟨hdesc, h⟩ := List.pairwise_cons.mp h
    have hdiff : itimediff newseg.sn s.sn = (newseg.ahead nxt : Int) - s.ahead nxt := itimediff_eq_sub hnew hs
    unfold insertSeg
    split
    next => exact List.pairwise_cons.mpr ⟨hdesc, h⟩
    next hne =>
      split
      next hpos =>
        refine List.pairwise_cons.mpr ⟨fun t ht => ?_, List.pairwise_cons.mpr ⟨hdesc, h⟩⟩
        rcases List.mem_cons.mp ht with rfl | ht
        · omega
        · have := hdesc t ht
          omega
      next hpos =>
        refine List.pairwise_cons.mpr ⟨fun t ht => ?_, ih hl h⟩
        rcases mem_insertSeg ht with rfl | ht
        · have hahead : s.ahead nxt ≠ t.ahead nxt := by
            intro heq
            refine hne ?_
            have hsub : s.sn - nxt = t.sn - nxt := UInt32.toNat_inj.mp heq
            exact (UInt32.sub_left_inj nxt).mp hsub
          omega
        · exact hdesc t ht

/-! ## The window -/

/-- `rcv_buf` ascends within `W` numbers from `rcv_nxt` on, and `rcv_queue` is no longer. -/
structure Ikcpcb.Windowed (W : Nat) (cb : Ikcpcb) : Prop where
  ascending : cb.rcvBuf.Pairwise fun s t => s.ahead cb.rcvNxt < t.ahead cb.rcvNxt
  ahead : ∀ s ∈ cb.rcvBuf, s.ahead cb.rcvNxt < W
  queue : cb.rcvQueue.length ≤ W
  rcvWnd : cb.rcvWnd.toNat ≤ W

/-- What the move of one segment keeps, the loop keeps. -/
theorem Ikcpcb.moved_induct {P : Ikcpcb → Prop}
    (hone : ∀ (cb : Ikcpcb) seg buf, cb.rcvBuf = seg :: buf → seg.sn = cb.rcvNxt →
      cb.rcvQueue.length < cb.rcvWnd.toNat → P cb →
      P { cb with rcvBuf := buf, rcvQueue := cb.rcvQueue ++ [seg], rcvNxt := cb.rcvNxt + 1 })
    (cb : Ikcpcb) (h : P cb) : P cb.moved := by
  unfold Ikcpcb.moved
  generalize hbuf : cb.rcvBuf = buf
  induction buf generalizing cb with
  | nil =>
    rw [moveAvailable, ← hbuf]
    exact h
  | cons seg buf ih =>
    by_cases hmove : seg.sn = cb.rcvNxt ∧ cb.rcvQueue.length < cb.rcvWnd.toNat
    · rw [moveAvailable, if_pos hmove]
      exact ih _ (hone cb seg buf hbuf hmove.1 hmove.2 h) rfl
    · rw [moveAvailable, if_neg hmove, ← hbuf]
      exact h

/-- A segment of the next number has moved on: the others are one number closer. -/
theorem Ikcpcb.Windowed.moved {W : Nat} {cb : Ikcpcb} (h : cb.Windowed W) : cb.moved.Windowed W := by
  refine moved_induct (fun cb seg buf hbuf hsn hroom h => ?_) cb h
  have hasc := h.ascending
  have hahead := h.ahead
  have hwnd := h.rcvWnd
  rw [hbuf] at hasc hahead
  obtain ⟨hfirst, hasc⟩ := List.pairwise_cons.mp hasc
  obtain ⟨-, hahead⟩ := List.forall_mem_cons.mp hahead
  have hzero : seg.ahead cb.rcvNxt = 0 := by rw [Seg.ahead, hsn, UInt32.sub_self]; rfl
  have hcloser : ∀ s ∈ buf, s.ahead (cb.rcvNxt + 1) = s.ahead cb.rcvNxt - 1 ∧ 0 < s.ahead cb.rcvNxt := by
    intro s hs
    have hpos := hfirst s hs
    rw [hzero] at hpos
    exact ⟨toNat_sub_succ hpos, hpos⟩
  refine ⟨hasc.imp_of_mem fun hs ht hlt => ?_, fun s hs => ?_, ?_, hwnd⟩
  · have h1 := hcloser _ hs
    have h2 := hcloser _ ht
    show Seg.ahead (cb.rcvNxt + 1) _ < Seg.ahead (cb.rcvNxt + 1) _
    omega
  · have h1 := hcloser s hs
    have h2 := hahead s hs
    show Seg.ahead (cb.rcvNxt + 1) _ < W
    omega
  · rw [List.length_append, List.length_singleton]
    omega

/-- A segment of the window goes to its place. -/
theorem Ikcpcb.Windowed.insert {W : Nat} {cb : Ikcpcb} (h : cb.Windowed W) (hW : W < 2 ^ 31) (seg : Seg)
    (hin : itimediff seg.sn (cb.rcvNxt + cb.rcvWnd) < 0 ∧ 0 ≤ itimediff seg.sn cb.rcvNxt) :
    { cb with rcvBuf := (insertSeg seg cb.rcvBuf.reverse).reverse }.Windowed W := by
  have hnew : (seg.sn - cb.rcvNxt).toNat < 2 ^ 31 := itimediff_nonneg_iff.mp hin.2
  have hwnd := h.rcvWnd
  refine ⟨?_, fun s hs => ?_, h.queue, h.rcvWnd⟩
  · rw [List.pairwise_reverse]
    refine insertSeg_descends hnew (fun s hs => ?_) (List.pairwise_reverse.mpr h.ascending)
    have := h.ahead s (List.mem_reverse.mp hs)
    omega
  · rcases mem_insertSeg (List.mem_reverse.mp hs) with rfl | hs
    · have := (itimediff_add_neg_iff hnew (by omega)).mp hin.1
      show (s.sn - cb.rcvNxt).toNat < W
      omega
    · exact h.ahead s (List.mem_reverse.mp hs)

theorem Ikcpcb.Windowed.push {W : Nat} {cb : Ikcpcb} (h : cb.Windowed W) (hW : W < 2 ^ 31) (seg : Seg) :
    (ikcpPush cb seg).Windowed W := by
  unfold ikcpPush
  split
  next hin =>
    unfold ikcpParseData
    split
    next => exact h
    next => exact (h.insert hW seg hin).moved
  next => exact h

theorem Ikcpcb.Windowed.cut {W : Nat} {cb : Ikcpcb} (h : cb.Windowed W) :
    { cb with rcvQueue := (mergeFragments cb.rcvQueue).2 }.Windowed W := by
  refine ⟨h.ascending, h.ahead, ?_, h.rcvWnd⟩
  have hsplit := congrArg List.length (mergeFragments_snd cb.rcvQueue)
  rw [List.length_append] at hsplit
  have := h.queue
  show (mergeFragments cb.rcvQueue).2.length ≤ W
  omega

theorem Ikcpcb.Windowed.recv {W : Nat} {cb : Ikcpcb} (h : cb.Windowed W) (len : Int) :
    (ikcpRecv cb len).2.2.Windowed W := by
  rcases ikcpRecv_cases cb len with ⟨-, hsame⟩ | ⟨m, -, heq⟩
  · rw [hsame]
    exact h
  · rw [heq]
    dsimp only
    split
    · exact h.moved
    · exact h.cut.moved

/-! ## The next segment -/

/-- The window is at least 128, and the next segment waits in `rcv_buf` only for room in `rcv_queue`. -/
structure Ikcpcb.Settled (cb : Ikcpcb) : Prop where
  rcvWnd : 128 ≤ cb.rcvWnd.toNat
  full : ∀ s ∈ cb.rcvBuf, s.sn = cb.rcvNxt → 128 ≤ cb.rcvQueue.length

/-- Where the loop stops at the next segment, `rcv_queue` is full. -/
theorem moveAvailable_stops (wnd : UInt32) (buf queue : List Seg) (nxt : UInt32) {seg : Seg} {rest : List Seg}
    (h : (moveAvailable wnd buf queue nxt).1 = seg :: rest) (hsn : seg.sn = (moveAvailable wnd buf queue nxt).2.2) :
    wnd.toNat ≤ (moveAvailable wnd buf queue nxt).2.1.length := by
  induction buf generalizing queue nxt with
  | nil => cases h
  | cons s buf ih =>
    by_cases hmove : s.sn = nxt ∧ queue.length < wnd.toNat
    · rw [moveAvailable, if_pos hmove] at h hsn ⊢
      exact ih _ _ h hsn
    · rw [moveAvailable, if_neg hmove] at h hsn ⊢
      obtain ⟨rfl, rfl⟩ := List.cons.inj h
      exact Nat.not_lt.mp fun hroom => hmove ⟨hsn, hroom⟩

theorem Ikcpcb.moved_settled {W : Nat} {cb : Ikcpcb} (h : cb.Windowed W) (hwnd : 128 ≤ cb.rcvWnd.toNat) :
    cb.moved.Settled := by
  refine ⟨hwnd, fun s hs hsn => ?_⟩
  have hasc := h.moved.ascending
  cases hbuf : cb.moved.rcvBuf with
  | nil =>
    rw [hbuf] at hs
    cases hs
  | cons first rest =>
    rw [hbuf] at hs hasc
    have hfirst : first.sn = cb.moved.rcvNxt := by
      rcases List.mem_cons.mp hs with rfl | hs
      · exact hsn
      · have hlt := (List.pairwise_cons.mp hasc).1 s hs
        rw [Seg.ahead, Seg.ahead, hsn, UInt32.sub_self] at hlt
        exact absurd hlt (Nat.not_lt_zero _)
    have hfull := moveAvailable_stops _ _ _ _ hbuf hfirst
    exact Nat.le_trans hwnd hfull

theorem Ikcpcb.Settled.push {W : Nat} {cb : Ikcpcb} (h : cb.Settled) (hwin : cb.Windowed W) (hW : W < 2 ^ 31)
    (seg : Seg) : (ikcpPush cb seg).Settled := by
  unfold ikcpPush
  split
  next hin =>
    unfold ikcpParseData
    split
    next => exact h
    next => exact moved_settled (hwin.insert hW seg hin) h.rcvWnd
  next => exact h

theorem Ikcpcb.Settled.recv {W : Nat} {cb : Ikcpcb} (h : cb.Settled) (hwin : cb.Windowed W) (len : Int) :
    (ikcpRecv cb len).2.2.Settled := by
  rcases ikcpRecv_cases cb len with ⟨-, hsame⟩ | ⟨m, -, heq⟩
  · rw [hsame]
    exact h
  · rw [heq]
    dsimp only
    split
    · exact moved_settled hwin h.rcvWnd
    · exact moved_settled hwin.cut h.rcvWnd

/-! ## The calls -/

namespace Kcpcb

theorem flush_rcv (kcp : Kcpcb) : kcp.flush.2.toIkcpcb = kcp.toIkcpcb := by
  cases hu : kcp.updated with
  | false => rw [flush_idle hu]
  | true =>
    obtain ⟨_, _, _, _, heq⟩ := flush_eq hu
    obtain ⟨_, _, _, _, _, _, hnum⟩ := kcp.numbered_eq
    rw [heq, hnum]

theorem update_rcv (kcp : Kcpcb) (current : UInt32) : (kcp.update current).2.toIkcpcb = kcp.toIkcpcb := by
  obtain ⟨tsFlush, heq | heq⟩ := kcp.update_cases current
  · rw [heq, flush_rcv]
  · rw [heq]

/-- A call that sets the receive window sets it to at most `W`. -/
def RcvWndLe (W : Nat) : KcpAct → Prop
  | .wndsize _ rcvwnd => rcvwnd.toInt ≤ W
  | _ => True

/-- What every call does to the receive side. -/
theorem step_rcv_induct {P : Ikcpcb → Prop} (hpush : ∀ cb seg, P cb → P (ikcpPush cb seg))
    (hrecv : ∀ cb len, P cb → P (ikcpRecv cb len).2.2) {kcp : Kcpcb} (h : P kcp.toIkcpcb) {a : KcpAct}
    (hwnd : ∀ sndwnd rcvwnd, a = .wndsize sndwnd rcvwnd → 0 < rcvwnd →
      P { kcp.toIkcpcb with rcvWnd := max rcvwnd.toUInt32 ikcpWndRcv }) : P (kcp.step a).1.toIkcpcb := by
  cases a with
  | send buffer len =>
    obtain ⟨queue, heq⟩ := kcp.send_eq buffer len.toInt
    rw [Kcpcb.step, heq]
    exact h
  | recv len =>
    rw [Kcpcb.step, (kcp.recv_rcv len.toInt).2.2]
    exact hrecv _ _ h
  | input data =>
    refine input_induct (P := fun k => P k.toIkcpcb) (fun k head data hk => ?_) (fun k una maxack hk => ?_) data h
    · rw [inputSeg_rcv]
      split
      · exact hpush _ _ hk
      · exact hk
    · obtain ⟨buf, cwnd, incr, heq, -⟩ := k.afterInput_eq una maxack
      rw [heq]
      exact hk
  | update current =>
    rw [Kcpcb.step, update_rcv]
    exact h
  | flush =>
    rw [Kcpcb.step, flush_rcv]
    exact h
  | nodelay nodelay interval resend nc =>
    obtain ⟨_, _, _, _, _, heq⟩ := kcp.setNodelay_eq nodelay interval resend nc
    rw [Kcpcb.step, heq]
    exact h
  | wndsize sndwnd rcvwnd =>
    obtain ⟨sndWnd, rcvWnd, heq, -, rfl | ⟨hpos, rfl⟩⟩ := kcp.wndsize_eq sndwnd rcvwnd
    · rw [Kcpcb.step, heq]
      exact h
    · rw [Kcpcb.step, heq]
      exact hwnd sndwnd rcvwnd rfl hpos
  | interval interval => exact h
  | setmtu mtu =>
    obtain ⟨_, _, _, heq, -⟩ := kcp.setmtu_eq mtu
    rw [Kcpcb.step, heq]
    exact h

theorem max_ikcpWndRcv (w : UInt32) : (max w ikcpWndRcv).toNat = max w.toNat 128 := by
  show (if w ≤ ikcpWndRcv then ikcpWndRcv else w).toNat = max w.toNat 128
  have h128 : ikcpWndRcv.toNat = 128 := rfl
  split
  next hle =>
    have := UInt32.le_iff_toNat_le.mp hle
    omega
  next hgt =>
    have := UInt32.le_iff_toNat_le.not.mp hgt
    omega

/-- The receive side is in its window, and no segment waits in `rcv_buf` for nothing. -/
def RecvOk (W : Nat) (cb : Ikcpcb) : Prop := cb.Windowed W ∧ cb.Settled

theorem step_recvOk {W : Nat} (hW : W < 2 ^ 31) (hmin : 128 ≤ W) {kcp : Kcpcb} (h : RecvOk W kcp.toIkcpcb)
    {a : KcpAct} (ha : RcvWndLe W a) : RecvOk W (kcp.step a).1.toIkcpcb := by
  refine step_rcv_induct (P := RecvOk W) (fun cb seg hcb => ⟨hcb.1.push hW seg, hcb.2.push hcb.1 hW seg⟩)
    (fun cb len hcb => ⟨hcb.1.recv len, hcb.2.recv hcb.1 len⟩) h ?_
  rintro sndwnd rcvwnd rfl hpos
  have hle : rcvwnd.toInt ≤ W := ha
  have hnat := toNat_toUInt32_of_pos hpos
  have hmax := max_ikcpWndRcv rcvwnd.toUInt32
  refine ⟨⟨h.1.ascending, h.1.ahead, h.1.queue, ?_⟩, ⟨?_, h.2.full⟩⟩
  · show (max rcvwnd.toUInt32 ikcpWndRcv).toNat ≤ W
    omega
  · show 128 ≤ (max rcvwnd.toUInt32 ikcpWndRcv).toNat
    omega

theorem recvOk_create {W : Nat} (hmin : 128 ≤ W) (conv token : UInt32) :
    RecvOk W (create conv token).toIkcpcb := by
  have hbuf : (create conv token).toIkcpcb.rcvBuf = [] := rfl
  have hwnd : (create conv token).toIkcpcb.rcvWnd.toNat = 128 := rfl
  refine ⟨⟨.nil, ?_, Nat.zero_le _, hmin⟩, ⟨Nat.le_of_eq hwnd.symm, ?_⟩⟩
  · simp [hbuf]
  · simp [hbuf]

end Kcpcb

end EyPS
