/-
How a message travels: `ikcp_send` cuts it into at most 127 fragments that count down to
0, `ikcp_recv` puts together what stands at the head of the receive queue once as many
segments are there as the first one announces. Cut and put together it is the message.
-/
import EyPS.Countdown
import EyPS.KcpDatagrams
import EyPS.RecvHead

namespace EyPS

open Kcpcb (fragment_length_le)

/-- A received segment as the sender queued it. -/
def Seg.fragment (seg : Seg) : Fragment := ⟨seg.frg, seg.data⟩

/-- The fragments of these messages, in order. -/
abbrev Fragments : List Fragment → List Bytes → Prop := Countdown.Framed Fragment.frg Fragment.data

/-! ## Cutting -/

theorem fragment_group (mss n : Nat) (buffer : Bytes) :
    Countdown.Group Fragment.frg (Kcpcb.fragment mss 0 n buffer) := by
  have hlen : ∀ n buffer, (Kcpcb.fragment mss 0 n buffer).length = n := by
    intro n
    induction n with
    | zero => intro; rfl
    | succ n ih => intro buffer; rw [Kcpcb.fragment, List.length_cons, ih]
  induction n generalizing buffer with
  | zero => trivial
  | succ n ih =>
    refine ⟨?_, ih _⟩
    rw [hlen, if_pos rfl]

theorem fragment_frg_lt {mss n : Nat} {buffer : Bytes} :
    ∀ fragment ∈ Kcpcb.fragment mss 0 n buffer, fragment.frg < n := by
  induction n generalizing buffer with
  | zero => simp [Kcpcb.fragment]
  | succ n ih =>
    rw [Kcpcb.fragment, List.forall_mem_cons, if_pos rfl]
    exact ⟨Nat.lt_succ_self n, fun f hf => Nat.lt_succ_of_lt (ih f hf)⟩

/-- Enough fragments hold all of the message. -/
theorem fragment_data {mss n : Nat} {buffer : Bytes} (h : buffer.length ≤ n * mss) :
    (Kcpcb.fragment mss 0 n buffer).flatMap Fragment.data = buffer := by
  induction n generalizing buffer with
  | zero =>
    rw [Nat.zero_mul, Nat.le_zero, List.length_eq_zero_iff] at h
    rw [h]
    rfl
  | succ n ih =>
    rw [Nat.succ_mul] at h
    rw [Kcpcb.fragment, List.flatMap_cons, ih (by rw [List.length_drop]; omega), List.take_append_drop]

theorem fragmentCount_pos (mss len : Nat) (hmss : 0 < mss) : 0 < Kcpcb.fragmentCount mss len := by
  unfold Kcpcb.fragmentCount
  split
  · exact Nat.one_pos
  · exact Nat.div_pos (by omega) hmss

theorem le_fragmentCount (mss len : Nat) (hmss : 0 < mss) : len ≤ Kcpcb.fragmentCount mss len * mss := by
  unfold Kcpcb.fragmentCount
  split
  · omega
  · have hdiv := Nat.div_add_mod (len + mss - 1) mss
    have hmod := Nat.mod_lt (len + mss - 1) hmss
    rw [Nat.mul_comm]
    omega

/-- `ikcp_send` takes what 127 fragments hold. -/
theorem fragmentCount_lt_iff {mss : Nat} (hmss : 0 < mss) (len : Nat) :
    Kcpcb.fragmentCount mss len < ikcpWndRcv.toNat ↔ len ≤ 127 * mss := by
  have hwnd : ikcpWndRcv.toNat = 128 := rfl
  unfold Kcpcb.fragmentCount
  rw [hwnd]
  split
  · omega
  · rw [Nat.div_lt_iff_lt_mul hmss]
    omega

theorem send_eq_sendFragments {kcp : Kcpcb} (hstream : kcp.stream = 0) (buffer : Bytes) {len : Int}
    (hlen : 0 ≤ len) : kcp.send buffer len = kcp.sendFragments (buffer.take len.toNat) := by
  have hnot : ¬ len < 0 := by omega
  unfold Kcpcb.send
  rw [if_neg hnot]
  simp [hstream]

/-- **What `ikcp_send` does with a message** where it does not stream: up to 127 fragments' worth of
bytes it queues as fragments that are exactly the message, none longer than `mss`, and what is
longer it refuses and changes nothing. -/
theorem send_spec {kcp : Kcpcb} (hstream : kcp.stream = 0) (hmss : 0 < kcp.mss.toNat) (buffer : Bytes) {len : Int}
    (hlen : 0 ≤ len) :
    ((buffer.take len.toNat).length ≤ 127 * kcp.mss.toNat →
      ∃ frags, kcp.send buffer len = (0, { kcp with sndQueue := kcp.sndQueue ++ frags }) ∧
        Fragments frags [buffer.take len.toNat] ∧ ∀ f ∈ frags, f.frg < 128 ∧ f.data.length ≤ kcp.mss.toNat) ∧
    (127 * kcp.mss.toNat < (buffer.take len.toNat).length → kcp.send buffer len = (-2, kcp)) := by
  rw [send_eq_sendFragments hstream buffer hlen]
  generalize buffer.take len.toNat = message
  have hiff := fragmentCount_lt_iff hmss message.length
  have hpos := fragmentCount_pos kcp.mss.toNat message.length hmss
  unfold Kcpcb.sendFragments
  dsimp only
  refine ⟨fun hle => ?_, fun hgt => ?_⟩
  · have hlt := hiff.mpr hle
    have hne : Kcpcb.fragment kcp.mss.toNat 0 (Kcpcb.fragmentCount kcp.mss.toNat message.length) message ≠ [] := by
      obtain ⟨n, hn⟩ : ∃ n, Kcpcb.fragmentCount kcp.mss.toNat message.length = n + 1 :=
        ⟨Kcpcb.fragmentCount kcp.mss.toNat message.length - 1, by omega⟩
      rw [hn, Kcpcb.fragment]
      simp
    have hframed : Fragments _ _ := Countdown.Framed.single
      (fragment_group kcp.mss.toNat (Kcpcb.fragmentCount kcp.mss.toNat message.length) message) hne
    rw [fragment_data (le_fragmentCount kcp.mss.toNat message.length hmss)] at hframed
    rw [if_neg (Nat.not_le.mpr hlt), if_neg (Nat.pos_iff_ne_zero.mp hpos), hstream]
    refine ⟨_, rfl, hframed, fun f hf => ⟨?_, fragment_length_le f hf⟩⟩
    exact Nat.lt_trans (fragment_frg_lt f hf) hlt
  · have hnot : ¬ Kcpcb.fragmentCount kcp.mss.toNat message.length < ikcpWndRcv.toNat := by omega
    rw [if_pos (Nat.not_lt.mp hnot)]

/-! ## Putting together -/

theorem countsDown_iff_group (segs : List Seg) : CountsDown segs ↔ Countdown.Group Seg.frg segs := by
  induction segs with
  | nil => exact Iff.rfl
  | cons seg segs ih => simp [CountsDown, Countdown.Group, ih]

/-- In a stream of messages the complete message at the head of the queue is the first one, and what
`ikcp_recv` leaves is the stream of the others. -/
theorem headMessage_fragments {queue : List Seg} {more : List Fragment} {ms : List Bytes} {m : Bytes}
    (h : Fragments (queue.map Seg.fragment ++ more) ms) (hm : headMessage queue = some m) :
    ∃ ms', ms = m :: ms' ∧ Fragments ((headFragments queue).map Seg.fragment) [m] ∧
      Fragments ((mergeFragments queue).2.map Seg.fragment ++ more) ms' := by
  cases queue with
  | nil => cases hm
  | cons seg queue =>
    have hlen : seg.fragment.frg ≤ (queue.map Seg.fragment).length := by
      rw [List.length_map]
      rw [headMessage] at hm
      split at hm
      · cases hm
      next hlt => exact Nat.not_lt.mp hlt
    obtain ⟨group, rest, ms', hcut, hgroup, hne, rfl, hrest⟩ :=
      Countdown.Framed.head h hlen
    obtain ⟨group, rest, hsegs, rfl, rfl⟩ := List.map_eq_append_iff.mp
      (show (seg :: queue).map Seg.fragment = group ++ rest from hcut)
    have hdown : CountsDown group := 
      (countsDown_iff_group group).mpr ((Countdown.group_map (f := Seg.fragment)).mp hgroup)
    have hgne : group ≠ [] := by simpa using hne
    have hhead : headFragments (seg :: queue) = group := by
      rw [hsegs]
      exact headFragments_countsDown hdown hgne rest
    have hleft : (mergeFragments (seg :: queue)).2 = rest := by
      have hsplit := mergeFragments_snd (seg :: queue)
      rw [hhead] at hsplit
      exact List.append_cancel_left (hsplit.trans hsegs)
    have hdata : (group.map Seg.fragment).flatMap Fragment.data = group.flatMap Seg.data := by
      rw [List.flatMap_map]
      rfl
    have hmsg : m = group.flatMap Seg.data := by
      have hgm := headMessage_countsDown hdown hgne rest
      rw [← hsegs, hm] at hgm
      exact Option.some.inj hgm
    rw [hhead, hleft, hmsg, hdata]
    refine ⟨ms', rfl, ?_, hrest⟩
    rw [← hdata]
    exact Countdown.Framed.single hgroup hne

/-- What `ikcp_peeksize` sums up is no more than the first message. -/
theorem fragmentsLength_le {queue : List Seg} {group rest more : List Fragment}
    (hg : Countdown.Group Fragment.frg group) (hne : group ≠ [])
    (h : queue.map Seg.fragment ++ more = group ++ rest) :
    fragmentsLength queue ≤ (group.flatMap Fragment.data).length := by
  induction queue generalizing group with
  | nil => exact Nat.zero_le _
  | cons seg queue ih =>
    cases group with
    | nil => exact absurd rfl hne
    | cons f group =>
      obtain ⟨rfl, htail⟩ := List.cons.inj h
      rw [fragmentsLength, List.flatMap_cons, List.length_append]
      refine Nat.add_le_add_left ?_ _
      split
      · exact Nat.zero_le _
      next hfrg =>
        have hmore : group ≠ [] := by
          rintro rfl
          exact hfrg hg.1
        exact ih hg.2 hmore htail

theorem fragmentsLength_lt {queue : List Seg} {more : List Fragment} {ms : List Bytes} {n : Nat}
    (h : Fragments (queue.map Seg.fragment ++ more) ms) (hn : 0 < n) (hms : ∀ m ∈ ms, m.length < n) :
    fragmentsLength queue < n := by
  generalize hs : queue.map Seg.fragment ++ more = stream at h
  cases h with
  | nil =>
    obtain ⟨hqueue, -⟩ := List.append_eq_nil_iff.mp hs
    rw [List.map_eq_nil_iff.mp hqueue]
    exact hn
  | cons hg hne _ => exact Nat.lt_of_le_of_lt (fragmentsLength_le hg hne hs) (hms _ List.mem_cons_self)

/-- What `ikcp_recv` does: it refuses and changes nothing, or it copies the head message. -/
theorem ikcpRecv_cases (cb : Ikcpcb) (len : Int) :
    ((ikcpRecv cb len).1 < 0 ∧ (ikcpRecv cb len).2.2 = cb) ∨
      ∃ m, headMessage cb.rcvQueue = some m ∧
        ikcpRecv cb len = ((m.length : Int), m, if len < 0 then cb.moved else cb.taken) := by
  by_cases hq : cb.rcvQueue = []
  · left
    rw [ikcpRecv, if_pos hq]
    exact ⟨show (-1 : Int) < 0 by decide, rfl⟩
  have hpeek := ikcpPeeksize_eq cb
  cases hm : headMessage cb.rcvQueue with
  | none =>
    left
    simp only [hm] at hpeek
    rw [ikcpRecv, if_neg hq, hpeek, if_pos (by decide)]
    exact ⟨show (-2 : Int) < 0 by decide, rfl⟩
  | some m =>
    simp only [hm] at hpeek
    have hdata : (mergeFragments cb.rcvQueue).1 = m := by
      rw [mergeFragments_fst]
      cases hqueue : cb.rcvQueue with
      | nil => exact absurd hqueue hq
      | cons seg queue =>
        rw [hqueue, headMessage] at hm
        split at hm
        · cases hm
        · simpa using hm
    have hnonneg : ¬ (m.length : Int) < 0 := Int.not_lt.mpr (Int.natCast_nonneg _)
    by_cases hlong : (len.natAbs : Int) < m.length
    · left
      rw [ikcpRecv, if_neg hq, hpeek, if_neg hnonneg, if_pos hlong]
      exact ⟨show (-3 : Int) < 0 by decide, rfl⟩
    · right
      refine ⟨m, rfl, ?_⟩
      rw [ikcpRecv, if_neg hq, hpeek, if_neg hnonneg, if_neg hlong]
      simp only [hdata, Ikcpcb.taken]
      split <;> rfl

end EyPS
