/-
The send side of KCP over whole runs: `snd_buf` holds segments in the order of their
numbers, each once, the oldest at `snd_una` and all before `snd_nxt`, and no more of them
than the window admits.

All of it holds whatever datagrams arrive and however often the 32-bit numbers wrap, so
numbers are compared by their distance from `snd_una`.
-/
import EyPS.KcpInput
import EyPS.Serial
import Mathlib.Data.List.Perm.Subperm

namespace EyPS

/-- A segment as the peer's receive side holds it. -/
def IkcpSeg.seg (s : IkcpSeg) : Seg := ⟨s.frg, s.sn, s.data⟩

namespace Kcpcb

/-- The segments of `snd_buf`, as the peer is to have them. -/
def inFlight (kcp : Kcpcb) : List Seg := kcp.sndBuf.map IkcpSeg.seg

/-- The number `ikcp_shrink_buf` takes for `snd_una`. -/
def firstSn (kcp : Kcpcb) : UInt32 :=
  match kcp.inFlight with
  | seg :: _ => seg.sn
  | [] => kcp.sndNxt

/-! ## ikcp_input, on the send side -/

theorem removeAcked_sublist (sn : UInt32) (buf : List IkcpSeg) : (removeAcked sn buf).Sublist buf := by
  induction buf with
  | nil => exact .slnil
  | cons seg buf ih =>
    unfold removeAcked
    split
    · exact List.sublist_cons_self _ _
    split
    · exact .refl _
    · exact ih.cons_cons seg

/-- Only a segment of that number is removed. -/
theorem mem_removeAcked {sn : UInt32} {buf : List IkcpSeg} {seg : IkcpSeg} (h : seg ∈ buf) (hsn : seg.sn ≠ sn) :
    seg ∈ removeAcked sn buf := by
  induction buf with
  | nil => cases h
  | cons s buf ih =>
    unfold removeAcked
    split
    next hs =>
      rcases List.mem_cons.mp h with rfl | h
      · exact absurd hs.symm hsn
      · exact h
    split
    · exact h
    · rcases List.mem_cons.mp h with rfl | h
      · exact List.mem_cons_self
      · exact List.mem_cons_of_mem _ (ih h)

theorem countFastack_seg (sn : UInt32) (buf : List IkcpSeg) :
    (countFastack sn buf).map IkcpSeg.seg = buf.map IkcpSeg.seg := by
  induction buf with
  | nil => rfl
  | cons seg buf ih =>
    unfold countFastack
    split
    · rfl
    · rw [List.map_cons, List.map_cons, ih]
      split <;> rfl

theorem countFastack_forall {P : IkcpSeg → Prop} {sn : UInt32} {buf : List IkcpSeg}
    (hcount : ∀ s : IkcpSeg, P s → P { s with fastack := s.fastack + 1 }) (h : ∀ s ∈ buf, P s) :
    ∀ s ∈ countFastack sn buf, P s := by
  induction buf with
  | nil => exact h
  | cons seg buf ih =>
    obtain ⟨hseg, hbuf⟩ := List.forall_mem_cons.mp h
    unfold countFastack
    split
    · exact h
    · refine List.forall_mem_cons.mpr ⟨?_, ih hbuf⟩
      split
      · exact hcount seg hseg
      · exact hseg

/-- What `ikcp_input` leaves alone on the send side: it only takes segments out. -/
structure SameSend (kcp kcp' : Kcpcb) : Prop where
  conv : kcp'.conv = kcp.conv
  token : kcp'.token = kcp.token
  sndQueue : kcp'.sndQueue = kcp.sndQueue
  sndNxt : kcp'.sndNxt = kcp.sndNxt
  sndWnd : kcp'.sndWnd = kcp.sndWnd
  mtu : kcp'.mtu = kcp.mtu
  mss : kcp'.mss = kcp.mss
  bufferSize : kcp'.bufferSize = kcp.bufferSize
  overrun : kcp'.overrun = kcp.overrun
  stream : kcp'.stream = kcp.stream
  sndBuf : kcp'.inFlight.Sublist kcp.inFlight

theorem SameSend.refl (kcp : Kcpcb) : kcp.SameSend kcp :=
  ⟨rfl, rfl, rfl, rfl, rfl, rfl, rfl, rfl, rfl, rfl, .refl _⟩

theorem SameSend.trans {kcp kcp' kcp'' : Kcpcb} (h : kcp.SameSend kcp') (h' : kcp'.SameSend kcp'') :
    kcp.SameSend kcp'' :=
  ⟨h'.conv.trans h.conv, h'.token.trans h.token, h'.sndQueue.trans h.sndQueue, h'.sndNxt.trans h.sndNxt,
    h'.sndWnd.trans h.sndWnd, h'.mtu.trans h.mtu, h'.mss.trans h.mss, h'.bufferSize.trans h.bufferSize,
    h'.overrun.trans h.overrun, h'.stream.trans h.stream, h'.sndBuf.trans h.sndBuf⟩

theorem parseUna_sublist (una : UInt32) (buf : List IkcpSeg) :
    (buf.dropWhile fun seg => 0 < itimediff una seg.sn).Sublist buf :=
  (List.dropWhile_suffix _).sublist

theorem inputSeg_sameSend (kcp : Kcpcb) (head : SegHeader) (data : Bytes) :
    kcp.SameSend (kcp.inputSeg head data) := by
  have huna := (parseUna_sublist head.una kcp.sndBuf).map IkcpSeg.seg
  have hids := kcp.inputSeg_ids head data
  rcases kcp.inputSeg_cases head data with ⟨-, srtt, rttval, rto, h⟩ | ⟨-, h⟩ | ⟨-, -, probe, h⟩
  · obtain ⟨buf, hbuf, hcases⟩ := parseAck_eq
      { kcp.takeHeader head with rxSrtt := srtt, rxRttval := rttval, rxRto := rto } head.sn
    rw [h, hbuf] at hids ⊢
    refine ⟨hids.1, hids.2, rfl, rfl, rfl, rfl, rfl, rfl, rfl, rfl, ?_⟩
    rcases hcases with rfl | rfl
    · exact huna
    · exact ((removeAcked_sublist head.sn _).map IkcpSeg.seg).trans huna
  · rw [h] at hids ⊢
    exact ⟨hids.1, hids.2, rfl, rfl, rfl, rfl, rfl, rfl, rfl, rfl, huna⟩
  · rw [h] at hids ⊢
    exact ⟨hids.1, hids.2, rfl, rfl, rfl, rfl, rfl, rfl, rfl, rfl, huna⟩

theorem afterInput_sameSend (kcp : Kcpcb) (prevUna : UInt32) (maxack : Option UInt32) :
    kcp.SameSend (kcp.afterInput prevUna maxack) := by
  obtain ⟨buf, cwnd, incr, h, hbuf⟩ := kcp.afterInput_eq prevUna maxack
  rw [h]
  refine ⟨rfl, rfl, rfl, rfl, rfl, rfl, rfl, rfl, rfl, rfl, ?_⟩
  rcases hbuf with rfl | ⟨sn, rfl⟩
  · exact .refl _
  · rw [inFlight, countFastack_seg]
    exact .refl _

theorem input_sameSend (kcp : Kcpcb) (data : Bytes) : kcp.SameSend (kcp.input data).2 :=
  input_induct (P := kcp.SameSend) (fun k head data h => h.trans (k.inputSeg_sameSend head data))
    (fun k una maxack h => h.trans (k.afterInput_sameSend una maxack)) data (.refl kcp)

/-! ## snd_una -/

theorem shrinkBuf_sndUna (kcp : Kcpcb) : kcp.shrinkBuf.sndUna = kcp.shrinkBuf.firstSn := by
  unfold shrinkBuf firstSn inFlight
  cases kcp.sndBuf <;> rfl

theorem inputSeg_sndUna (kcp : Kcpcb) (head : SegHeader) (data : Bytes) :
    (kcp.inputSeg head data).sndUna = (kcp.inputSeg head data).firstSn := by
  have htake : (kcp.takeHeader head).sndUna = (kcp.takeHeader head).firstSn := shrinkBuf_sndUna _
  rcases kcp.inputSeg_cases head data with ⟨-, srtt, rttval, rto, h⟩ | ⟨-, h⟩ | ⟨-, -, probe, h⟩
  · rw [h]
    exact shrinkBuf_sndUna _
  · rw [h]
    exact htake
  · rw [h]
    exact htake

theorem afterInput_sndUna {kcp : Kcpcb} (h : kcp.sndUna = kcp.firstSn) (prevUna : UInt32)
    (maxack : Option UInt32) :
    (kcp.afterInput prevUna maxack).sndUna = (kcp.afterInput prevUna maxack).firstSn := by
  obtain ⟨buf, cwnd, incr, heq, hbuf⟩ := kcp.afterInput_eq prevUna maxack
  rw [heq]
  rcases hbuf with rfl | ⟨sn, rfl⟩
  · exact h
  · unfold firstSn inFlight at h ⊢
    rw [countFastack_seg]
    exact h

theorem input_sndUna {kcp : Kcpcb} (h : kcp.sndUna = kcp.firstSn) (data : Bytes) :
    (kcp.input data).2.sndUna = (kcp.input data).2.firstSn :=
  input_induct (P := fun k => k.sndUna = k.firstSn) (fun k head data _ => k.inputSeg_sndUna head data)
    (fun _ una maxack hk => afterInput_sndUna hk una maxack) data h

/-! ## The window -/

/-- How far `snd_buf` reaches. -/
def flight (kcp : Kcpcb) : Nat := (kcp.sndNxt - kcp.sndUna).toNat

/-- The segments of `snd_buf` ascend from `snd_una` and stay before `snd_nxt`, at most `W` numbers on. -/
structure InWindow (W : Nat) (kcp : Kcpcb) : Prop where
  una : kcp.sndUna = kcp.firstSn
  ascending : kcp.inFlight.Pairwise fun s t => (s.sn - kcp.sndUna).toNat < (t.sn - kcp.sndUna).toNat
  before : ∀ s ∈ kcp.inFlight, (s.sn - kcp.sndUna).toNat < kcp.flight
  flight_le : kcp.flight ≤ W

/-- Taking segments out, and `snd_una` to the first one left, keeps the window. -/
theorem InWindow.shrink {W : Nat} {kcp kcp' : Kcpcb} (h : kcp.InWindow W) (hs : kcp.SameSend kcp')
    (huna : kcp'.sndUna = kcp'.firstSn) : kcp'.InWindow W := by
  cases hbuf : kcp'.inFlight with
  | nil =>
    have hsame : kcp'.sndUna = kcp'.sndNxt := by rw [huna, firstSn, hbuf]
    have hzero : kcp'.flight = 0 := by rw [flight, hsame, UInt32.sub_self]; rfl
    refine ⟨huna, ?_, ?_, ?_⟩
    · rw [hbuf]; exact .nil
    · rw [hbuf]; simp
    · omega
  | cons first rest =>
    have hfirst : kcp'.sndUna = first.sn := by rw [huna, firstSn, hbuf]
    have hsub := hs.sndBuf
    have hasc := h.ascending.sublist hsub
    rw [hbuf, List.pairwise_cons] at hasc
    have hmem : ∀ s ∈ kcp'.inFlight, s ∈ kcp.inFlight := fun s hs => hsub.subset hs
    have hold : (first.sn - kcp.sndUna).toNat < kcp.flight := h.before _ (hmem _ (by rw [hbuf]; simp))
    -- the distances all shrink by that of the first segment left
    have hoff : ∀ s ∈ kcp'.inFlight,
        (s.sn - kcp'.sndUna).toNat = (s.sn - kcp.sndUna).toNat - (first.sn - kcp.sndUna).toNat ∧
          (first.sn - kcp.sndUna).toNat ≤ (s.sn - kcp.sndUna).toNat := by
      intro s hs
      have hle : (first.sn - kcp.sndUna).toNat ≤ (s.sn - kcp.sndUna).toNat := by
        rw [hbuf] at hs
        rcases List.mem_cons.mp hs with rfl | hs
        · exact Nat.le_refl _
        · exact Nat.le_of_lt (hasc.1 s hs)
      rw [hfirst]
      exact ⟨toNat_sub_rebase hle, hle⟩
    have hflight : kcp'.flight = kcp.flight - (first.sn - kcp.sndUna).toNat := by
      rw [flight, hfirst, hs.sndNxt]
      exact toNat_sub_rebase (Nat.le_of_lt hold)
    refine ⟨huna, ?_, ?_, ?_⟩
    · refine (h.ascending.sublist hsub).imp_of_mem fun hs ht hlt => ?_
      have h1 := hoff _ hs
      have h2 := hoff _ ht
      omega
    · intro s hs
      have h1 := hoff _ hs
      have h2 := h.before s (hmem s hs)
      omega
    · have := h.flight_le
      omega

/-! ## The other calls -/

theorem toNat_toUInt32_of_pos {x : Int32} (h : 0 < x) : (x.toUInt32.toNat : Int) = x.toInt := by
  have hpos : 0 < x.toInt := Int32.lt_iff_toInt_lt.mp h
  have hint : x.toInt = x.toUInt32.toBitVec.toInt := rfl
  have hnat : x.toUInt32.toBitVec.toNat = x.toUInt32.toNat := rfl
  have hcond := BitVec.toInt_eq_toNat_cond x.toUInt32.toBitVec
  rw [← hint, hnat] at hcond
  split at hcond <;> omega

theorem send_eq (kcp : Kcpcb) (buffer : Bytes) (len : Int) :
    ∃ queue, (kcp.send buffer len).2 = { kcp with sndQueue := queue } := by
  have hfrag : ∀ (k : Kcpcb) b, ∃ queue, (k.sendFragments b).2 = { k with sndQueue := queue } := by
    intro k b
    unfold sendFragments
    dsimp only
    split <;> exact ⟨_, rfl⟩
  have hext : ∀ b, ∃ queue rest, kcp.extendLast b = ({ kcp with sndQueue := queue }, rest) := by
    intro b
    unfold extendLast
    split
    · exact ⟨_, _, rfl⟩
    · split <;> exact ⟨_, _, rfl⟩
  unfold send
  split
  · exact ⟨_, rfl⟩
  · dsimp only
    split
    · obtain ⟨queue, rest, h⟩ := hext (buffer.take len.toNat)
      rw [h]
      dsimp only
      split
      · exact ⟨_, rfl⟩
      · obtain ⟨queue', h'⟩ := hfrag { kcp with sndQueue := queue } rest
        exact ⟨queue', h'⟩
    · exact hfrag _ _

theorem recv_eq (kcp : Kcpcb) (len : Int) :
    ∃ probe, (kcp.recv len).2.2 = { kcp with toIkcpcb := (ikcpRecv kcp.toIkcpcb len).2.2, probe := probe } := by
  have hrcv := (kcp.recv_rcv len).2.2
  unfold recv at hrcv ⊢
  dsimp only at hrcv ⊢
  split at hrcv
  next h => rw [if_pos h, ← hrcv]; exact ⟨_, rfl⟩
  next h =>
    rw [if_neg h]
    split <;> exact ⟨_, rfl⟩

theorem setNodelay_eq (kcp : Kcpcb) (nodelay interval resend nc : Int32) :
    ∃ nodelay' minrto interval' resend' nc', kcp.setNodelay nodelay interval resend nc =
      { kcp with nodelay := nodelay', rxMinrto := minrto, interval := interval', fastresend := resend', nocwnd := nc' } := by
  unfold setNodelay
  dsimp only
  split <;> split <;> split <;> split <;> exact ⟨_, _, _, _, _, rfl⟩

theorem wndsize_eq (kcp : Kcpcb) (sndwnd rcvwnd : Int32) :
    ∃ sndWnd rcvWnd, kcp.wndsize sndwnd rcvwnd = { kcp with sndWnd := sndWnd, rcvWnd := rcvWnd } ∧
      (sndWnd = kcp.sndWnd ∨ 0 < sndwnd ∧ sndWnd = sndwnd.toUInt32) ∧
      (rcvWnd = kcp.rcvWnd ∨ 0 < rcvwnd ∧ rcvWnd = max rcvwnd.toUInt32 ikcpWndRcv) := by
  unfold wndsize
  split
  next hs =>
    split
    next hr => exact ⟨_, _, rfl, .inr ⟨hs, rfl⟩, .inr ⟨hr, rfl⟩⟩
    · exact ⟨_, _, rfl, .inr ⟨hs, rfl⟩, .inl rfl⟩
  · split
    next hr => exact ⟨_, _, rfl, .inl rfl, .inr ⟨hr, rfl⟩⟩
    · exact ⟨_, _, rfl, .inl rfl, .inl rfl⟩

/-- `ikcp_setmtu` keeps what it has, or takes an MTU that a header leaves room in. -/
theorem setmtu_eq (kcp : Kcpcb) (mtu : Int32) :
    ∃ mtu' mss size, (kcp.setmtu mtu).2 = { kcp with mtu := mtu', mss := mss, bufferSize := size } ∧
      (mtu' = kcp.mtu ∧ mss = kcp.mss ∧ size = kcp.bufferSize ∨
        mss.toNat + ikcpOverhead = mtu'.toNat ∧ 0 < mss.toNat ∧ (mtu'.toNat : Int) = mtu.toInt ∧
          size = bufferFor mtu') := by
  unfold setmtu
  split
  next => exact ⟨_, _, _, rfl, .inl ⟨rfl, rfl, rfl⟩⟩
  next hmtu =>
    refine ⟨_, _, _, rfl, .inr ?_⟩
    have hge : (50 : Int) ≤ mtu.toInt :=
      Int.not_lt.mp (Int32.lt_iff_toInt_lt.not.mp fun hlt => hmtu (.inl hlt))
    have hpos : 0 < mtu := by
      refine Int32.lt_iff_toInt_lt.mpr ?_
      show (0 : Int) < mtu.toInt
      omega
    have hnat := toNat_toUInt32_of_pos hpos
    have hlt := mtu.toInt_lt
    have hsub := UInt32.toNat_sub mtu.toUInt32 (UInt32.ofNat ikcpOverhead)
    have hover : (UInt32.ofNat ikcpOverhead).toNat = 28 := rfl
    refine ⟨?_, ?_, hnat, rfl⟩ <;> simp only [ikcpOverhead] at * <;> omega

/-! ## ikcp_flush -/

/-- What every move from `snd_queue` to `snd_buf` keeps, the loop keeps. -/
theorem moveQueue_induct {P : Kcpcb → Prop} {cwnd : UInt32}
    (hone : ∀ kcp fragment queue, kcp.sndQueue = fragment :: queue →
      itimediff kcp.sndNxt (kcp.sndUna + cwnd) < 0 → P kcp → P (moveOne kcp fragment queue))
    (kcp : Kcpcb) (h : P kcp) : P (moveQueue cwnd kcp kcp.sndQueue) := by
  generalize hq : kcp.sndQueue = queue
  induction queue generalizing kcp with
  | nil => exact h
  | cons fragment queue ih =>
    unfold moveQueue
    split
    next hlt => exact ih _ (hone kcp fragment queue hq hlt h) rfl
    · exact h

theorem probeWindow_eq (kcp : Kcpcb) :
    ∃ tsProbe probeWait probe, kcp.probeWindow =
      { kcp with tsProbe := tsProbe, probeWait := probeWait, probe := probe } := by
  unfold probeWindow
  split
  · split
    · exact ⟨_, _, _, rfl⟩
    · split <;> exact ⟨_, _, _, rfl⟩
  · exact ⟨_, _, _, rfl⟩

/-- Numbering changes nothing but the two lists, the next number and the probe. -/
theorem numbered_eq (kcp : Kcpcb) :
    ∃ queue buf nxt tsProbe probeWait probe, kcp.numbered =
      { kcp with sndQueue := queue, sndBuf := buf, sndNxt := nxt, tsProbe := tsProbe, probeWait := probeWait
                 probe := probe } := by
  obtain ⟨tsProbe, probeWait, probe, hprobe⟩ := kcp.probeWindow_eq
  unfold numbered
  rw [hprobe]
  refine moveQueue_induct (P := fun k => ∃ queue buf nxt tsProbe probeWait probe, k =
    { kcp with sndQueue := queue, sndBuf := buf, sndNxt := nxt, tsProbe := tsProbe, probeWait := probeWait
               probe := probe })
    (fun k fragment queue _ _ hk => ?_)
    { kcp with tsProbe := tsProbe, probeWait := probeWait, probe := probe }
    ⟨_, _, _, tsProbe, probeWait, probe, rfl⟩
  obtain ⟨_, _, _, tsProbe, probeWait, probe, rfl⟩ := hk
  exact ⟨_, _, _, tsProbe, probeWait, probe, rfl⟩

theorem shrinkCwnd_eq (kcp : Kcpcb) (w : UInt32) (change lost : Bool) :
    ∃ ssthresh cwnd incr, kcp.shrinkCwnd w change lost =
      { kcp with ssthresh := ssthresh, cwnd := cwnd, incr := incr } := by
  unfold shrinkCwnd
  dsimp only
  split <;> split <;> split <;> exact ⟨_, _, _, rfl⟩

theorem flush_eq {kcp : Kcpcb} (hu : kcp.updated = true) :
    ∃ state ssthresh cwnd incr, kcp.flush.2 =
      { kcp.numbered with
        acklist := [], probe := 0, sndBuf := kcp.numbered.sndBuf.map kcp.numbered.flushSeg
        overrun := kcp.numbered.overrun || kcp.outbox.overrun
        state := state, ssthresh := ssthresh, cwnd := cwnd, incr := incr } := by
  unfold flush
  rw [if_neg (by simp [hu])]
  dsimp only
  obtain ⟨ssthresh, cwnd, incr, h⟩ := shrinkCwnd_eq
    { kcp.numbered with
      acklist := [], probe := 0, sndBuf := kcp.numbered.sndBuf.map kcp.numbered.flushSeg
      overrun := kcp.numbered.overrun || kcp.outbox.overrun
      state := if (kcp.numbered.dueSegs.any fun segment => kcp.deadLink ≤ segment.xmit) then 0xffffffff
        else kcp.numbered.state }
    kcp.sendWindow (kcp.numbered.sends .fast) (kcp.numbered.sends .timeout)
  rw [h]
  exact ⟨_, _, _, _, rfl⟩

theorem flush_idle {kcp : Kcpcb} (hu : kcp.updated = false) : kcp.flush = ([], kcp) := by
  rw [flush, if_pos (by simp [hu])]

/-- Sending a segment does not change what it carries. -/
theorem stamp_seg (kcp : Kcpcb) (s : IkcpSeg) (d : Due) : (kcp.stamp s d).seg = s.seg := by
  cases d <;> rfl

theorem flushSeg_seg (kcp : Kcpcb) (s : IkcpSeg) : (kcp.flushSeg s).seg = s.seg := by
  unfold flushSeg
  split
  · exact stamp_seg kcp s _
  · rfl

theorem flushed_inFlight (kcp : Kcpcb) (buf : List IkcpSeg) :
    (buf.map kcp.flushSeg).map IkcpSeg.seg = buf.map IkcpSeg.seg := by
  rw [List.map_map]
  exact List.map_congr_left fun s _ => kcp.flushSeg_seg s

/-- `ikcp_update` sets the clock, and then flushes or does nothing. -/
theorem update_cases (kcp : Kcpcb) (current : UInt32) :
    ∃ tsFlush, kcp.update current = { kcp with current := current, updated := true, tsFlush := tsFlush }.flush ∨
      kcp.update current = ([], { kcp with current := current, updated := true, tsFlush := tsFlush }) := by
  unfold update
  dsimp only
  split
  · exact ⟨_, .inl rfl⟩
  · exact ⟨_, .inr rfl⟩

/-! ## Every step keeps the window -/

theorem InWindow.congr {W : Nat} {kcp kcp' : Kcpcb} (h : kcp.InWindow W) (hbuf : kcp'.inFlight = kcp.inFlight)
    (hnxt : kcp'.sndNxt = kcp.sndNxt) (huna : kcp'.sndUna = kcp.sndUna) : kcp'.InWindow W := by
  have hfirst : kcp'.firstSn = kcp.firstSn := by rw [firstSn, firstSn, hbuf, hnxt]
  have hflight : kcp'.flight = kcp.flight := by rw [flight, flight, hnxt, huna]
  refine ⟨?_, ?_, ?_, ?_⟩
  · rw [huna, hfirst, h.una]
  · rw [hbuf, huna]
    exact h.ascending
  · rw [hbuf, huna, hflight]
    exact h.before
  · rw [hflight]
    exact h.flight_le

theorem moveOne_inFlight (kcp : Kcpcb) (fragment : Fragment) (queue : List Fragment) :
    (kcp.moveOne fragment queue).inFlight =
      kcp.inFlight ++ [⟨fragment.frg, kcp.sndNxt, fragment.data⟩] := by
  simp [inFlight, moveOne, numberSeg, IkcpSeg.seg]

/-- The next number is taken while the window has room for it. -/
theorem InWindow.moveOne {W : Nat} {kcp : Kcpcb} (h : kcp.InWindow W) (hroom : kcp.flight + 1 ≤ W)
    (hW : W < 2 ^ 31) (fragment : Fragment) (queue : List Fragment) : (kcp.moveOne fragment queue).InWindow W := by
  have hbuf := kcp.moveOne_inFlight fragment queue
  have hnew : (kcp.sndNxt - kcp.sndUna).toNat = kcp.flight := rfl
  have hflight : (kcp.moveOne fragment queue).flight = kcp.flight + 1 :=
    toNat_sub_add_one (show (kcp.sndNxt - kcp.sndUna).toNat < 2 ^ 32 - 1 by omega)
  have huna : (kcp.moveOne fragment queue).sndUna = kcp.sndUna := rfl
  refine ⟨?_, ?_, ?_, ?_⟩
  · rw [huna, h.una, firstSn, firstSn, hbuf]
    cases kcp.inFlight <;> rfl
  · rw [hbuf, huna, List.pairwise_append]
    refine ⟨h.ascending, List.pairwise_singleton _ _, fun s hs t ht => ?_⟩
    obtain rfl := List.mem_singleton.mp ht
    exact h.before s hs
  · intro s hs
    rw [hbuf] at hs
    rw [huna, hflight]
    rcases List.mem_append.mp hs with hs | hs
    · have := h.before s hs
      omega
    · obtain rfl := List.mem_singleton.mp hs
      dsimp only
      omega
  · omega

/-- The window's bounds: `W` is one for what `ikcp_wndsize` was given, and the peer's window
travels in 16 bits. -/
structure Windowed (W : Nat) (kcp : Kcpcb) : Prop where
  window : kcp.InWindow (min W 65535)
  sndWnd : kcp.sndWnd.toNat ≤ W
  rmtWnd : kcp.rmtWnd.toNat ≤ 65535

theorem sendWindow_le (kcp : Kcpcb) :
    kcp.sendWindow.toNat ≤ kcp.sndWnd.toNat ∧ kcp.sendWindow.toNat ≤ kcp.rmtWnd.toNat := by
  have hmin : ∀ a b : UInt32, (min a b).toNat ≤ a.toNat ∧ (min a b).toNat ≤ b.toNat := by
    intro a b
    show (if a ≤ b then a else b).toNat ≤ a.toNat ∧ (if a ≤ b then a else b).toNat ≤ b.toNat
    split
    next hle => exact ⟨Nat.le_refl _, hle⟩
    next hgt => exact ⟨Nat.le_of_lt (UInt32.not_le.mp hgt), Nat.le_refl _⟩
  unfold sendWindow
  dsimp only
  have h := hmin kcp.sndWnd kcp.rmtWnd
  split
  · have h' := hmin kcp.cwnd (min kcp.sndWnd kcp.rmtWnd)
    omega
  · exact h

theorem Windowed.create (conv token : UInt32) {W : Nat} (hW : 32 ≤ W) : (create conv token).Windowed W where
  window := ⟨rfl, .nil, by simp [inFlight, Kcpcb.create], by simp [flight, Kcpcb.create]⟩
  sndWnd := hW
  rmtWnd := show ikcpWndRcv.toNat ≤ 65535 by decide

theorem Windowed.flush {W : Nat} {kcp : Kcpcb} (h : kcp.Windowed W) : kcp.flush.2.Windowed W := by
  cases hu : kcp.updated with
  | false =>
    rw [flush_idle hu]
    exact h
  | true =>
    have hwin := kcp.sendWindow_le
    have hcap : kcp.sendWindow.toNat ≤ min W 65535 := by
      have h1 := h.sndWnd
      have h2 := h.rmtWnd
      omega
    have hnumbered : kcp.numbered.Windowed W := by
      obtain ⟨tsProbe, probeWait, probe, hprobe⟩ := kcp.probeWindow_eq
      unfold numbered
      rw [hprobe]
      refine moveQueue_induct (P := Windowed W) (fun k fragment queue _ hlt hk => ?_)
        { kcp with tsProbe := tsProbe, probeWait := probeWait, probe := probe } ?_
      · have hflight : k.flight ≤ min W 65535 := hk.window.flight_le
        have hroom : k.flight < kcp.sendWindow.toNat :=
          (itimediff_add_neg_iff (show k.flight < 2 ^ 31 by omega) (by omega)).mp hlt
        exact ⟨hk.window.moveOne (by omega) (by omega) fragment queue, hk.sndWnd, hk.rmtWnd⟩
      · exact ⟨h.window.congr rfl rfl rfl, h.sndWnd, h.rmtWnd⟩
    obtain ⟨state, ssthresh, cwnd, incr, heq⟩ := flush_eq hu
    rw [heq]
    refine ⟨hnumbered.window.congr ?_ rfl rfl, hnumbered.sndWnd, hnumbered.rmtWnd⟩
    exact flushed_inFlight _ _

theorem inputSeg_rmtWnd (kcp : Kcpcb) (head : SegHeader) (data : Bytes) :
    (kcp.inputSeg head data).rmtWnd = head.wnd.toUInt32 := by
  rcases kcp.inputSeg_cases head data with ⟨-, srtt, rttval, rto, h⟩ | ⟨-, h⟩ | ⟨-, -, probe, h⟩
  · obtain ⟨buf, hbuf, -⟩ := parseAck_eq
      { kcp.takeHeader head with rxSrtt := srtt, rxRttval := rttval, rxRto := rto } head.sn
    rw [h, hbuf]
    rfl
  · rw [h]
    rfl
  · rw [h]
    rfl

theorem Windowed.input {W : Nat} {kcp : Kcpcb} (h : kcp.Windowed W) (data : Bytes) :
    (kcp.input data).2.Windowed W := by
  have hrmt : (kcp.input data).2.rmtWnd.toNat ≤ 65535 := by
    refine input_induct (P := fun k => k.rmtWnd.toNat ≤ 65535) (fun k head data _ => ?_)
      (fun k una maxack hk => ?_) data h.rmtWnd
    · have hlt := head.wnd.toNat_lt
      rw [inputSeg_rmtWnd, UInt16.toNat_toUInt32]
      omega
    · obtain ⟨buf, cwnd, incr, heq, -⟩ := k.afterInput_eq una maxack
      rw [heq]
      exact hk
  have hsame := kcp.input_sameSend data
  refine ⟨h.window.shrink hsame (input_sndUna h.window.una data), ?_, hrmt⟩
  rw [hsame.sndWnd]
  exact h.sndWnd

/-- A call that sets the send window sets it to at most `W`. -/
def SndWndLe (W : Nat) : KcpAct → Prop
  | .wndsize sndwnd _ => sndwnd.toInt ≤ W
  | _ => True

theorem Windowed.step {W : Nat} {kcp : Kcpcb} (h : kcp.Windowed W) {a : KcpAct} (ha : SndWndLe W a) :
    (kcp.step a).1.Windowed W := by
  have same : ∀ kcp' : Kcpcb, kcp'.inFlight = kcp.inFlight → kcp'.sndNxt = kcp.sndNxt → kcp'.sndUna = kcp.sndUna →
      kcp'.sndWnd.toNat ≤ W → kcp'.rmtWnd = kcp.rmtWnd → kcp'.Windowed W := by
    intro kcp' hbuf hnxt huna hsnd hrmt
    refine ⟨h.window.congr hbuf hnxt huna, hsnd, ?_⟩
    rw [hrmt]
    exact h.rmtWnd
  cases a with
  | send buffer len =>
    obtain ⟨queue, heq⟩ := kcp.send_eq buffer len.toInt
    exact same _ (by rw [Kcpcb.step, heq]; rfl) (by rw [Kcpcb.step, heq]) (by rw [Kcpcb.step, heq])
      (by rw [Kcpcb.step, heq]; exact h.sndWnd) (by rw [Kcpcb.step, heq])
  | recv len =>
    obtain ⟨probe, heq⟩ := kcp.recv_eq len.toInt
    exact same _ (by rw [Kcpcb.step, heq]; rfl) (by rw [Kcpcb.step, heq]) (by rw [Kcpcb.step, heq])
      (by rw [Kcpcb.step, heq]; exact h.sndWnd) (by rw [Kcpcb.step, heq])
  | input data => exact h.input data
  | update current =>
    obtain ⟨tsFlush, heq | heq⟩ := kcp.update_cases current
    · rw [Kcpcb.step, heq]
      exact Windowed.flush (same _ rfl rfl rfl h.sndWnd rfl)
    · rw [Kcpcb.step, heq]
      exact same _ rfl rfl rfl h.sndWnd rfl
  | flush => exact h.flush
  | nodelay nodelay interval resend nc =>
    obtain ⟨_, _, _, _, _, heq⟩ := kcp.setNodelay_eq nodelay interval resend nc
    rw [Kcpcb.step, heq]
    exact same _ rfl rfl rfl h.sndWnd rfl
  | wndsize sndwnd rcvwnd =>
    obtain ⟨sndWnd, rcvWnd, heq, hsnd, -⟩ := kcp.wndsize_eq sndwnd rcvwnd
    rw [Kcpcb.step, heq]
    refine same _ rfl rfl rfl ?_ rfl
    rcases hsnd with rfl | ⟨hpos, rfl⟩
    · exact h.sndWnd
    · have hle : sndwnd.toInt ≤ W := ha
      show sndwnd.toUInt32.toNat ≤ W
      have hnat := toNat_toUInt32_of_pos hpos
      omega
  | interval interval => exact same _ rfl rfl rfl h.sndWnd rfl
  | setmtu mtu =>
    obtain ⟨_, _, _, heq, -⟩ := kcp.setmtu_eq mtu
    rw [Kcpcb.step, heq]
    exact same _ rfl rfl rfl h.sndWnd rfl

/-- Ascending numbers below a bound are at most as many. -/
theorem length_le_of_ascending {α : Type} (f : α → Nat) {l : List α} {n : Nat}
    (hasc : l.Pairwise fun a b => f a < f b) (hlt : ∀ a ∈ l, f a < n) : l.length ≤ n := by
  have hnodup : (l.map f).Nodup := by
    rw [List.Nodup, List.pairwise_map]
    exact hasc.imp fun h => Nat.ne_of_lt h
  have hsub : l.map f ⊆ List.range n := by
    intro x hx
    obtain ⟨a, ha, rfl⟩ := List.mem_map.mp hx
    exact List.mem_range.mpr (hlt a ha)
  have hle := (hnodup.subperm hsub).length_le
  simpa using hle

theorem InWindow.length_le {W : Nat} {kcp : Kcpcb} (h : kcp.InWindow W) : kcp.sndBuf.length ≤ W := by
  have hle := length_le_of_ascending (fun s : Seg => (s.sn - kcp.sndUna).toNat) h.ascending h.before
  rw [inFlight, List.length_map] at hle
  exact Nat.le_trans hle h.flight_le

/-- **The send window**. Whatever calls are made that C defines, and whatever arrives, `snd_buf` holds
ascending numbers from `snd_una` on and before `snd_nxt`, as many and as far apart at most as the
largest send window that was set, and never more than 65535. -/
theorem send_window (conv token : UInt32) (W : Nat) (acts : List KcpAct) (hW : 32 ≤ W)
    (hacts : Runs.AllSteps step (fun kcp a => kcp.Sound a ∧ SndWndLe W a) (create conv token) acts) :
    (Runs.final step (create conv token) acts).InWindow (min W 65535) ∧
      (Runs.final step (create conv token) acts).sndBuf.length ≤ min W 65535 := by
  have hwin :=
    (Runs.inv_of_allSteps (Windowed W) (fun _ _ h ha => h.step ha.2) (Windowed.create conv token hW) hacts).window
  exact ⟨hwin, hwin.length_le⟩

/-- The calls of the server: `Initialize`, a message, an acknowledgement of nothing and the clock. -/
theorem send_window_server :
    let acts : List KcpAct := [.nodelay 1 10 2 1, .wndsize 4096 4096, .update 0, .send [1] 1, .flush,
      .input (List.replicate 28 0)]
    (Runs.final step (create 0 0) acts).InWindow (min 4096 65535) ∧
      (Runs.final step (create 0 0) acts).sndBuf.length ≤ min 4096 65535 :=
  send_window 0 0 4096 _ (by decide) ⟨⟨trivial, trivial⟩, ⟨trivial, by exact Int.le_refl 4096⟩, ⟨trivial, trivial⟩,
    ⟨by exact Int.le_refl 1, trivial⟩, ⟨trivial, trivial⟩, ⟨show 28 < 2 ^ 31 by decide, trivial⟩, trivial⟩

end Kcpcb

end EyPS
