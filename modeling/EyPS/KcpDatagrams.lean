/-
What `ikcp_flush` puts out: whole segments, all it means to send and in that order, in
datagrams no longer than the MTU, of which the buffer they are written to holds three.

Both bounds are broken by `ikcp_setmtu` while segments cut for a longer MTU are still
waiting, and the second by an MTU whose buffer's size does not fit 32 bits.
-/
import EyPS.SendWindow

namespace EyPS

/-! ## Packing -/

/-- The buffer and what was put out are these segments, in order, each datagram whole
segments. -/
def Outbox.Packs (o : Outbox) (segs : List IkcpSeg) : Prop :=
  ∃ (parts : List (List IkcpSeg)) (last : List IkcpSeg), o.out = parts.map datagram ∧ [] ∉ parts ∧ o.buffer = datagram last ∧
    parts.flatten ++ last = segs

theorem datagram_eq_nil {segs : List IkcpSeg} : datagram segs = [] ↔ segs = [] := by
  cases segs with
  | nil => simp
  | cons seg segs =>
    have hne : seg.bytes ≠ [] := by
      intro h
      have := seg.bytes_length
      rw [h, ikcpOverhead, List.length_nil] at this
      omega
    simp [hne]

theorem ikcpOutput_datagram (segs : List IkcpSeg) :
    ikcpOutput (datagram segs) = (if segs = [] then [] else [segs]).map datagram := by
  unfold ikcpOutput
  simp only [List.length_eq_zero_iff, datagram_eq_nil]
  split <;> rfl

theorem Outbox.Packs.nil : Outbox.Packs ⟨[], [], false⟩ [] := ⟨[], [], rfl, by simp, rfl, rfl⟩

theorem Outbox.Packs.putSeg {o : Outbox} {segs : List IkcpSeg} (h : o.Packs segs) (mtu bufferSize : UInt32)
    (seg : IkcpSeg) : (o.putSeg mtu bufferSize seg).Packs (segs ++ [seg]) := by
  obtain ⟨parts, last, hout, hne, hbuf, rfl⟩ := h
  unfold Outbox.putSeg
  dsimp only
  split
  · refine ⟨parts ++ if last = [] then [] else [last], [seg], ?_, ?_, ?_, ?_⟩
    · rw [hout, hbuf, ikcpOutput_datagram, List.map_append]
    · split
      · simpa using hne
      next hlast => simp [hne, Ne.symm hlast]
    · simp [IkcpSeg.bytes]
    · split
      next hlast => simp [hlast]
      · simp
  · refine ⟨parts, last ++ [seg], hout, hne, ?_, ?_⟩
    · simp [hbuf, IkcpSeg.bytes]
    · simp

theorem Outbox.Packs.foldl {segs : List IkcpSeg} (mtu bufferSize : UInt32) (more : List IkcpSeg) {o : Outbox}
    (h : o.Packs segs) : (more.foldl (Outbox.putSeg mtu bufferSize) o).Packs (segs ++ more) := by
  induction more generalizing o segs with
  | nil => simpa using h
  | cons seg more ih =>
    rw [List.append_cons]
    exact ih (h.putSeg mtu bufferSize seg)

theorem Outbox.Packs.finish {o : Outbox} {segs : List IkcpSeg} (h : o.Packs segs) :
    ∃ parts : List (List IkcpSeg), o.finish = parts.map datagram ∧ [] ∉ parts ∧ parts.flatten = segs := by
  obtain ⟨parts, last, hout, hne, hbuf, rfl⟩ := h
  refine ⟨parts ++ if last = [] then [] else [last], ?_, ?_, ?_⟩
  · rw [Outbox.finish, hout, hbuf, ikcpOutput_datagram, List.map_append]
  · split
    · simpa using hne
    next hlast => simp [hne, Ne.symm hlast]
  · split
    next hlast => simp [hlast]
    · simp

/-- `ikcp_flush` puts out what it means to send: each segment once, in order, in datagrams of
whole segments. -/
theorem Kcpcb.flush_packs {kcp : Kcpcb} (hu : kcp.updated = true) :
    ∃ parts : List (List IkcpSeg), kcp.flush.1 = parts.map datagram ∧ [] ∉ parts ∧ parts.flatten = kcp.flushSegs := by
  have h := (Outbox.Packs.nil.foldl kcp.mtu kcp.bufferSize kcp.flushSegs).finish
  simpa [Kcpcb.flush, Kcpcb.outbox, hu] using h

/-! ## The MTU -/

/-- All put out and all in the buffer is within the MTU, and nothing left the buffer. -/
def Outbox.Fits (mtu : UInt32) (o : Outbox) : Prop :=
  (∀ d ∈ o.out, d.length ≤ mtu.toNat) ∧ o.buffer.length ≤ mtu.toNat ∧ o.overrun = false

theorem Outbox.Fits.putSeg {mtu bufferSize : UInt32} {o : Outbox} (h : o.Fits mtu) (hmtu : mtu.toNat < 2 ^ 30)
    (hsize : mtu.toNat ≤ bufferSize.toNat) {seg : IkcpSeg} (hseg : ikcpOverhead + seg.data.length ≤ mtu.toNat) :
    (o.putSeg mtu bufferSize seg).Fits mtu := by
  obtain ⟨hout, hbuffer, hover⟩ := h
  have hbytes : (ikcpEncodeSeg seg ++ seg.data).length = ikcpOverhead + seg.data.length := seg.bytes_length
  have hint : (o.overrun || decide (2 ^ 31 ≤ o.buffer.length + (ikcpOverhead + seg.data.length))) = false :=
    Bool.or_eq_false_iff.mpr ⟨hover, decide_eq_false (by omega)⟩
  unfold Outbox.putSeg
  dsimp only
  split
  · refine ⟨fun d hd => ?_, ?_, ?_⟩
    · rcases List.mem_append.mp hd with hd | hd
      · exact hout d hd
      · unfold ikcpOutput at hd
        split at hd
        · cases hd
        · obtain rfl := List.mem_singleton.mp hd
          exact hbuffer
    · rw [List.nil_append, hbytes]
      exact hseg
    · refine Bool.or_eq_false_iff.mpr ⟨hint, decide_eq_false ?_⟩
      rw [List.nil_append, hbytes]
      omega
  next hfit =>
    have hlen : (o.buffer ++ (ikcpEncodeSeg seg ++ seg.data)).length ≤ mtu.toNat := by
      rw [List.length_append, hbytes]
      omega
    exact ⟨hout, hlen, Bool.or_eq_false_iff.mpr ⟨hint, decide_eq_false (Nat.not_lt.mpr (Nat.le_trans hlen hsize))⟩⟩

theorem Outbox.Fits.foldl {mtu bufferSize : UInt32} {segs : List IkcpSeg} {o : Outbox} (h : o.Fits mtu)
    (hmtu : mtu.toNat < 2 ^ 30) (hsize : mtu.toNat ≤ bufferSize.toNat)
    (hsegs : ∀ seg ∈ segs, ikcpOverhead + seg.data.length ≤ mtu.toNat) :
    (segs.foldl (Outbox.putSeg mtu bufferSize) o).Fits mtu := by
  induction segs generalizing o with
  | nil => exact h
  | cons seg segs ih =>
    obtain ⟨hseg, hsegs⟩ := List.forall_mem_cons.mp hsegs
    exact ih (h.putSeg hmtu hsize hseg) hsegs

theorem Outbox.Fits.finish {mtu : UInt32} {o : Outbox} (h : o.Fits mtu) :
    ∀ d ∈ o.finish, d.length ≤ mtu.toNat := by
  intro d hd
  rcases List.mem_append.mp hd with hd | hd
  · exact h.1 d hd
  · unfold ikcpOutput at hd
    split at hd
    · cases hd
    · obtain rfl := List.mem_singleton.mp hd
      exact h.2.1

/-! ## Segments fit the MTU -/

namespace Kcpcb

theorem toNat_bufferFor {mtu : UInt32} (h : mtu.toNat < 2 ^ 30) :
    (bufferFor mtu).toNat = (mtu.toNat + ikcpOverhead) * 3 := by
  have hover : (UInt32.ofNat ikcpOverhead).toNat = 28 := rfl
  have hthree : (3 : UInt32).toNat = 3 := rfl
  rw [bufferFor, UInt32.toNat_mul, UInt32.toNat_add, hover, hthree, ikcpOverhead]
  omega

/-- Every fragment and every segment is cut for the MTU, and so is the buffer. -/
structure Sized (kcp : Kcpcb) : Prop where
  mtu : kcp.mss.toNat + ikcpOverhead = kcp.mtu.toNat
  mtu_lt : kcp.mtu.toNat < 2 ^ 30
  bufferSize : kcp.bufferSize = bufferFor kcp.mtu
  overrun : kcp.overrun = false
  stream : kcp.stream = 0
  sndQueue : ∀ fragment ∈ kcp.sndQueue, fragment.data.length ≤ kcp.mss.toNat
  sndBuf : ∀ s ∈ kcp.inFlight, s.data.length ≤ kcp.mss.toNat

theorem Sized.create (conv token : UInt32) : (create conv token).Sized where
  mtu := show (ikcpMtuDef - UInt32.ofNat ikcpOverhead).toNat + ikcpOverhead = ikcpMtuDef.toNat by decide
  mtu_lt := show ikcpMtuDef.toNat < 2 ^ 30 by decide
  bufferSize := rfl
  overrun := rfl
  stream := rfl
  sndQueue := by simp [Kcpcb.create]
  sndBuf := by simp [Kcpcb.create, inFlight]

theorem fragment_length_le {mss n : Nat} {stream : Int32} {buffer : Bytes} :
    ∀ fragment ∈ Kcpcb.fragment mss stream n buffer, fragment.data.length ≤ mss := by
  induction n generalizing buffer with
  | zero => simp [Kcpcb.fragment]
  | succ n ih =>
    rw [Kcpcb.fragment, List.forall_mem_cons]
    exact ⟨List.length_take_le _ _, ih⟩

/-- Without streaming `ikcp_send` appends the fragments of its message, or refuses it. -/
theorem send_sndQueue {kcp : Kcpcb} (hstream : kcp.stream = 0) (buffer : Bytes) (len : Int) :
    (kcp.send buffer len).2.sndQueue = kcp.sndQueue ∨
      ∃ n, (kcp.send buffer len).2.sndQueue =
        kcp.sndQueue ++ Kcpcb.fragment kcp.mss.toNat 0 n (buffer.take len.toNat) := by
  unfold send
  split
  · exact .inl rfl
  · dsimp only
    rw [if_neg (by simp [hstream])]
    unfold sendFragments
    dsimp only
    split
    · exact .inl rfl
    · rw [hstream]
      exact .inr ⟨_, rfl⟩

/-- Another control block that differs in none of this. -/
theorem Sized.congr {kcp kcp' : Kcpcb} (h : kcp.Sized) (hmtu : kcp'.mtu = kcp.mtu) (hmss : kcp'.mss = kcp.mss)
    (hsize : kcp'.bufferSize = kcp.bufferSize) (hover : kcp'.overrun = kcp.overrun)
    (hstream : kcp'.stream = kcp.stream) (hqueue : kcp'.sndQueue = kcp.sndQueue)
    (hbuf : kcp'.inFlight.Sublist kcp.inFlight) : kcp'.Sized where
  mtu := by rw [hmss, hmtu, h.mtu]
  mtu_lt := by rw [hmtu]; exact h.mtu_lt
  bufferSize := by rw [hsize, hmtu, h.bufferSize]
  overrun := by rw [hover, h.overrun]
  stream := by rw [hstream, h.stream]
  sndQueue := by rw [hqueue, hmss]; exact h.sndQueue
  sndBuf := by rw [hmss]; exact fun s hs => h.sndBuf s (hbuf.subset hs)

theorem Sized.numbered {kcp : Kcpcb} (h : kcp.Sized) : kcp.numbered.Sized := by
  obtain ⟨tsProbe, probeWait, probe, hprobe⟩ := kcp.probeWindow_eq
  unfold Kcpcb.numbered
  rw [hprobe]
  refine moveQueue_induct (P := Sized) (fun k fragment queue hq _ hk => ?_)
    { kcp with tsProbe := tsProbe, probeWait := probeWait, probe := probe }
    (h.congr rfl rfl rfl rfl rfl rfl (.refl _))
  have hqueue := hk.sndQueue
  rw [hq, List.forall_mem_cons] at hqueue
  refine ⟨hk.mtu, hk.mtu_lt, hk.bufferSize, hk.overrun, hk.stream, hqueue.2, fun s hs => ?_⟩
  rw [moveOne_inFlight] at hs
  rcases List.mem_append.mp hs with hs | hs
  · exact hk.sndBuf s hs
  · obtain rfl := List.mem_singleton.mp hs
    exact hqueue.1

theorem numbered_mss (kcp : Kcpcb) : kcp.numbered.mss = kcp.mss := by
  obtain ⟨_, _, _, _, _, _, h⟩ := kcp.numbered_eq
  rw [h]

/-- What is sent of `snd_buf` carries what is in it. -/
theorem mem_dueSegs {kcp : Kcpcb} {s : IkcpSeg} (h : s ∈ kcp.dueSegs) :
    ∃ segment ∈ kcp.sndBuf, ∃ d, kcp.due segment = some d ∧ s = kcp.stamp segment d := by
  obtain ⟨segment, hmem, hs⟩ := List.mem_filterMap.mp h
  obtain ⟨d, hd, rfl⟩ := Option.map_eq_some_iff.mp hs
  exact ⟨segment, hmem, d, hd, rfl⟩

theorem mem_probeSegs {kcp : Kcpcb} {probe sn ts : UInt32} {s : IkcpSeg} (h : s ∈ kcp.probeSegs probe sn ts) :
    s = kcp.ctlSeg ikcpCmdWask sn ts ∨ s = kcp.ctlSeg ikcpCmdWins sn ts := by
  unfold probeSegs at h
  rcases List.mem_append.mp h with h | h
  · split at h
    · exact .inl (List.mem_singleton.mp h)
    · cases h
  · split at h
    · exact .inr (List.mem_singleton.mp h)
    · cases h

/-- The three kinds of segment `ikcp_flush` sends. -/
theorem mem_flushSegs {kcp : Kcpcb} {s : IkcpSeg} (h : s ∈ kcp.flushSegs) :
    (∃ p ∈ kcp.acklist, s = kcp.ctlSeg ikcpCmdAck p.1 p.2) ∨
      (∃ sn ts, s = kcp.ctlSeg ikcpCmdWask sn ts ∨ s = kcp.ctlSeg ikcpCmdWins sn ts) ∨
      ∃ segment ∈ kcp.numbered.sndBuf, ∃ d, kcp.numbered.due segment = some d ∧ s = kcp.numbered.stamp segment d := by
  rcases List.mem_append.mp h with h | h
  · obtain ⟨p, hp, rfl⟩ := List.mem_map.mp h
    exact .inl ⟨p, hp, rfl⟩
  rcases List.mem_append.mp h with h | h
  · exact .inr (.inl ⟨_, _, mem_probeSegs h⟩)
  · exact .inr (.inr (mem_dueSegs h))

theorem Sized.flushSegs {kcp : Kcpcb} (h : kcp.Sized) :
    ∀ s ∈ kcp.flushSegs, ikcpOverhead + s.data.length ≤ kcp.mtu.toNat := by
  intro s hs
  have hmtu := h.mtu
  rcases mem_flushSegs hs with ⟨p, -, rfl⟩ | ⟨sn, ts, rfl | rfl⟩ | ⟨segment, hmem, d, -, rfl⟩
  · simp only [ctlSeg, List.length_nil]
    omega
  · simp only [ctlSeg, List.length_nil]
    omega
  · simp only [ctlSeg, List.length_nil]
    omega
  · have hle := h.numbered.sndBuf segment.seg (List.mem_map_of_mem hmem)
    have hdata : (kcp.numbered.stamp segment d).data = segment.seg.data := by
      rw [← stamp_seg kcp.numbered segment d]
      rfl
    rw [kcp.numbered_mss] at hle
    rw [hdata]
    omega

theorem Sized.outbox {kcp : Kcpcb} (h : kcp.Sized) : kcp.outbox.Fits kcp.mtu := by
  have hsize := toNat_bufferFor h.mtu_lt
  refine Outbox.Fits.foldl ⟨by simp, by simp, rfl⟩ h.mtu_lt ?_ h.flushSegs
  rw [h.bufferSize, hsize]
  omega

theorem Sized.flush {kcp : Kcpcb} (h : kcp.Sized) : kcp.flush.2.Sized := by
  cases hu : kcp.updated with
  | false =>
    rw [flush_idle hu]
    exact h
  | true =>
    obtain ⟨state, ssthresh, cwnd, incr, heq⟩ := flush_eq hu
    rw [heq]
    refine h.numbered.congr rfl rfl rfl ?_ rfl rfl ?_
    · show (kcp.numbered.overrun || kcp.outbox.overrun) = kcp.numbered.overrun
      rw [h.outbox.2.2, Bool.or_false]
    · rw [inFlight, flushed_inFlight]
      exact .refl _

theorem Sized.input {kcp : Kcpcb} (h : kcp.Sized) (data : Bytes) : (kcp.input data).2.Sized := by
  have hsame := kcp.input_sameSend data
  exact h.congr hsame.mtu hsame.mss hsame.bufferSize hsame.overrun hsame.stream hsame.sndQueue hsame.sndBuf

theorem Sized.update {kcp : Kcpcb} (h : kcp.Sized) (current : UInt32) : (kcp.update current).2.Sized := by
  obtain ⟨tsFlush, heq | heq⟩ := kcp.update_cases current
  · rw [heq]
    exact Sized.flush (h.congr rfl rfl rfl rfl rfl rfl (.refl _))
  · rw [heq]
    exact h.congr rfl rfl rfl rfl rfl rfl (.refl _)

theorem Sized.step {kcp : Kcpcb} (h : kcp.Sized) {a : KcpAct} (ha : kcp.Sound a) : (kcp.step a).1.Sized := by
  cases a with
  | send buffer len =>
    obtain ⟨queue, heq⟩ := kcp.send_eq buffer len.toInt
    have hqueue := send_sndQueue h.stream buffer len.toInt
    rw [Kcpcb.step]
    rw [heq] at hqueue ⊢
    refine ⟨h.mtu, h.mtu_lt, h.bufferSize, h.overrun, h.stream, fun fragment hf => ?_, h.sndBuf⟩
    rcases hqueue with hq | ⟨n, hq⟩
    · rw [hq] at hf
      exact h.sndQueue fragment hf
    · rw [hq] at hf
      rcases List.mem_append.mp hf with hf | hf
      · exact h.sndQueue fragment hf
      · exact fragment_length_le fragment hf
  | recv len =>
    obtain ⟨probe, heq⟩ := kcp.recv_eq len.toInt
    rw [Kcpcb.step, heq]
    exact h.congr rfl rfl rfl rfl rfl rfl (.refl _)
  | input data => exact h.input data
  | update current => exact h.update current
  | flush => exact h.flush
  | nodelay nodelay interval resend nc =>
    obtain ⟨_, _, _, _, _, heq⟩ := kcp.setNodelay_eq nodelay interval resend nc
    rw [Kcpcb.step, heq]
    exact h.congr rfl rfl rfl rfl rfl rfl (.refl _)
  | wndsize sndwnd rcvwnd =>
    obtain ⟨sndWnd, rcvWnd, heq, -, -⟩ := kcp.wndsize_eq sndwnd rcvwnd
    rw [Kcpcb.step, heq]
    exact h.congr rfl rfl rfl rfl rfl rfl (.refl _)
  | interval interval => exact h.congr rfl rfl rfl rfl rfl rfl (.refl _)
  | setmtu mtu =>
    obtain ⟨hlt, hwait⟩ : mtu.toInt < 2 ^ 30 ∧ kcp.waitsnd = 0 := ha
    obtain ⟨hbuf, hqueue⟩ := Nat.add_eq_zero_iff.mp hwait
    rw [List.length_eq_zero_iff] at hbuf hqueue
    obtain ⟨mtu', mss, size, heq, ⟨rfl, rfl, rfl⟩ | ⟨hmss, -, hmtu, rfl⟩⟩ := kcp.setmtu_eq mtu
    · rw [Kcpcb.step, heq]
      exact h
    · rw [Kcpcb.step, heq]
      refine ⟨hmss, ?_, rfl, h.overrun, h.stream, ?_, ?_⟩
      · show mtu'.toNat < 2 ^ 30
        omega
      · simp [hqueue]
      · simp [inFlight, hbuf]

theorem Sized.flush_out {kcp : Kcpcb} (h : kcp.Sized) :
    ∀ d ∈ kcp.flush.1, ikcpOverhead ≤ d.length ∧ d.length ≤ kcp.mtu.toNat := by
  cases hu : kcp.updated with
  | false => simp [flush_idle hu]
  | true =>
    intro d hd
    refine ⟨?_, ?_⟩
    · obtain ⟨parts, hout, hne, -⟩ := flush_packs hu
      rw [hout] at hd
      obtain ⟨part, hpart, rfl⟩ := List.mem_map.mp hd
      cases part with
      | nil => exact absurd hpart hne
      | cons seg rest =>
        rw [datagram_cons, List.length_append, seg.bytes_length]
        omega
    · simp only [Kcpcb.flush, hu, Bool.not_true, Bool.false_eq_true, if_false] at hd
      exact h.outbox.finish d hd

/-- Every datagram of a step is at least a header and at most the MTU. -/
def DatagramsFit (kcp : Kcpcb) (a : KcpAct) : Prop :=
  ∀ d ∈ (kcp.step a).2, ikcpOverhead ≤ d.length ∧ d.length ≤ kcp.mtu.toNat

theorem Sized.datagramsFit {kcp : Kcpcb} (h : kcp.Sized) (a : KcpAct) : kcp.DatagramsFit a := by
  cases a with
  | flush => exact h.flush_out
  | update current =>
    intro d hd
    replace hd : d ∈ (kcp.update current).1 := hd
    obtain ⟨tsFlush, heq | heq⟩ := kcp.update_cases current
    · have hset : Sized { kcp with current := current, updated := true, tsFlush := tsFlush } :=
        h.congr rfl rfl rfl rfl rfl rfl (.refl _)
      rw [heq] at hd
      exact hset.flush_out d hd
    · rw [heq] at hd
      cases hd
  | _ => intro d hd; cases hd

/-- **No datagram exceeds the MTU**, and no write leaves the buffer, in any run of calls that C
defines: one that changes the MTU only while nothing waits to be sent. -/
theorem datagrams_fit (conv token : UInt32) (acts : List KcpAct)
    (h : Runs.AllSteps step Sound (create conv token) acts) :
    Runs.AllSteps step DatagramsFit (create conv token) acts ∧
      (Runs.final step (create conv token) acts).overrun = false := by
  have hstep : ∀ kcp a, Sized kcp → kcp.Sound a → Sized (step kcp a).1 := fun _ _ hs ha => hs.step ha
  refine ⟨?_, (Runs.inv_of_allSteps Sized hstep (.create conv token) h).overrun⟩
  refine (Runs.allSteps_congr_within Sized hstep (fun kcp a hs _ => ?_) (.create conv token) h).mp h
  exact iff_of_true ‹_› (hs.datagramsFit a)

/-- A message in a run that lowers the MTU first. -/
theorem datagrams_fit_sample :
    let acts : List KcpAct := [.setmtu 100, .nodelay 1 10 2 1, .update 0, .send (List.replicate 200 7) 200, .flush]
    Runs.AllSteps step DatagramsFit (create 0 0) acts ∧ (Runs.final step (create 0 0) acts).overrun = false :=
  datagrams_fit 0 0 _ ⟨⟨by decide, rfl⟩, trivial, trivial, by exact Int.le_refl 200, trivial, trivial⟩

/-- Lowered while a long message waits, the MTU leaves a buffer that the message does not fit. -/
example :
    let acts : List KcpAct := [.update 0, .send (List.replicate 1372 7) 1372, .setmtu 50, .flush]
    (Runs.final step (create 0 0) acts).overrun = true := by
  decide +kernel

end Kcpcb

end EyPS
