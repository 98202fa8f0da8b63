/-
The receive side of `external/kcp/ikcp.c`: a datagram's segments go through
the window check into `rcv_buf`, in sequence order from there to
`rcv_queue`, and out of it one message at a time.

Left out is what never reaches those two lists: acknowledgements, window
probes, congestion control and everything `ikcp_flush` sends. `nrcv_que` and
`nrcv_buf` are the lengths of the lists they count.
-/
import EyPS.Buffer

namespace EyPS

/-- `IKCPSEG`, as far as the receive side reads it; `len` is `data.length`. -/
structure Seg where
  frg : Nat
  sn : UInt32
  data : Bytes
  deriving DecidableEq

/-- `IKCPCB`, the receive side. -/
structure Ikcpcb where
  conv : UInt32
  token : UInt32
  rcvNxt : UInt32
  rcvWnd : UInt32
  rcvBuf : List Seg
  rcvQueue : List Seg
  deriving DecidableEq

def ikcpWndRcv : UInt32 := 128
def ikcpOverhead : Nat := 28
def ikcpCmdPush : UInt8 := 81
def ikcpCmdAck : UInt8 := 82
def ikcpCmdWask : UInt8 := 83
def ikcpCmdWins : UInt8 := 84

/-- `ikcp_create`. -/
def ikcpCreate (conv token : UInt32) : Ikcpcb :=
  { conv, token, rcvNxt := 0, rcvWnd := ikcpWndRcv, rcvBuf := [], rcvQueue := [] }

/-- `ikcp_wndsize`, its receive window. -/
def ikcpWndsize (kcp : Ikcpcb) (rcvwnd : UInt32) : Ikcpcb :=
  if 0 < rcvwnd then { kcp with rcvWnd := max rcvwnd ikcpWndRcv } else kcp

/-- `_itimediff`: the signed distance of two wrapping 32-bit numbers. -/
def itimediff (later earlier : UInt32) : Int := (later - earlier).toInt32.toInt

/-! ## From a datagram to the receive queue -/

/-- The loop that moves available segments from `rcv_buf` to `rcv_queue`. -/
def moveAvailable (rcvWnd : UInt32) : List Seg → List Seg → UInt32 → List Seg × List Seg × UInt32
  | [], queue, nxt => ([], queue, nxt)
  | seg :: buf, queue, nxt =>
    if seg.sn = nxt ∧ queue.length < rcvWnd.toNat then moveAvailable rcvWnd buf (queue ++ [seg]) (nxt + 1)
    else (seg :: buf, queue, nxt)

/-- The control block after that loop. -/
def Ikcpcb.moved (kcp : Ikcpcb) : Ikcpcb :=
  let (buf, queue, nxt) := moveAvailable kcp.rcvWnd kcp.rcvBuf kcp.rcvQueue kcp.rcvNxt
  { kcp with rcvBuf := buf, rcvQueue := queue, rcvNxt := nxt }

/-- The backward search of `ikcp_parse_data` for the place of a segment, over
`rcv_buf` read from its tail; a segment already there is dropped. -/
def insertSeg (newseg : Seg) : List Seg → List Seg
  | [] => [newseg]
  | seg :: rest =>
    if seg.sn = newseg.sn then seg :: rest
    else if 0 < itimediff newseg.sn seg.sn then newseg :: seg :: rest
    else seg :: insertSeg newseg rest

/-- `ikcp_parse_data`. -/
def ikcpParseData (kcp : Ikcpcb) (newseg : Seg) : Ikcpcb :=
  if 0 ≤ itimediff newseg.sn (kcp.rcvNxt + kcp.rcvWnd) ∨ itimediff newseg.sn kcp.rcvNxt < 0 then kcp
  else { kcp with rcvBuf := (insertSeg newseg kcp.rcvBuf.reverse).reverse }.moved

def decode8u (data : Bytes) : UInt8 × Bytes := (data.headD 0, data.drop 1)

def decode32u (data : Bytes) : UInt32 × Bytes := (UInt32.ofNat (fromLE (data.take 4)), data.drop 4)

/-- What a PUSH segment does in `ikcp_input`. -/
def ikcpPush (kcp : Ikcpcb) (seg : Seg) : Ikcpcb :=
  if itimediff seg.sn (kcp.rcvNxt + kcp.rcvWnd) < 0 ∧ 0 ≤ itimediff seg.sn kcp.rcvNxt then
    ikcpParseData kcp seg
  else kcp

/-- The `while (1)` of `ikcp_input`; a pass takes at least the 28 bytes of a
header, so the data's length is fuel enough (`ikcpInputLoop_fuel`). -/
def ikcpInputLoop : Nat → Ikcpcb → Bytes → Int × Ikcpcb
  | 0, kcp, _ => (0, kcp)
  | fuel + 1, kcp, data =>
    if data.length < ikcpOverhead then (0, kcp)
    else
      let (conv, data) := decode32u data
      let (token, data) := decode32u data
      if conv ≠ kcp.conv ∨ token ≠ kcp.token then (-1, kcp)
      else
        let (cmd, data) := decode8u data
        let (frg, data) := decode8u data
        let data := data.drop 2  -- wnd
        let data := data.drop 4  -- ts
        let (sn, data) := decode32u data
        let data := data.drop 4  -- una
        let (len, data) := decode32u data
        -- `(int)len < 0` is what refuses a length from 2^31 on where `long` is 32 bits
        if data.length < len.toNat ∨ 2 ^ 31 ≤ len.toNat then (-2, kcp)
        else if cmd ≠ ikcpCmdPush ∧ cmd ≠ ikcpCmdAck ∧ cmd ≠ ikcpCmdWask ∧ cmd ≠ ikcpCmdWins then (-3, kcp)
        else
          let kcp := if cmd = ikcpCmdPush then ikcpPush kcp ⟨frg.toNat, sn, data.take len.toNat⟩ else kcp
          ikcpInputLoop fuel kcp (data.drop len.toNat)

/-- `ikcp_input`. -/
def ikcpInput (kcp : Ikcpcb) (data : Bytes) : Int × Ikcpcb :=
  if data.length < ikcpOverhead then (-1, kcp) else ikcpInputLoop data.length kcp data

theorem ikcpInputLoop_short (fuel : Nat) (kcp : Ikcpcb) {data : Bytes} (h : data.length < ikcpOverhead) :
    ikcpInputLoop fuel kcp data = (0, kcp) := by
  cases fuel with
  | zero => rfl
  | succ fuel => rw [ikcpInputLoop, if_pos h]

/-- The loop never runs out: a pass leaves at least a header's bytes less. -/
theorem ikcpInputLoop_fuel (fuel fuel' : Nat) (kcp : Ikcpcb) (data : Bytes) (h : data.length ≤ fuel)
    (h' : data.length ≤ fuel') : ikcpInputLoop fuel kcp data = ikcpInputLoop fuel' kcp data := by
  induction fuel generalizing fuel' kcp data with
  | zero =>
    have hd : data.length < ikcpOverhead := by simp only [ikcpOverhead]; omega
    rw [ikcpInputLoop_short _ _ hd, ikcpInputLoop_short _ _ hd]
  | succ fuel ih =>
    by_cases hd : data.length < ikcpOverhead
    · rw [ikcpInputLoop_short _ _ hd, ikcpInputLoop_short _ _ hd]
    · obtain ⟨n, rfl⟩ : ∃ n, fuel' = n + 1 := by
        simp only [ikcpOverhead] at hd
        exact ⟨fuel' - 1, by omega⟩
      simp only [ikcpInputLoop, if_neg hd, decode32u, decode8u, List.drop_drop]
      simp only [ikcpOverhead] at hd
      rw [ih n _ _ (by rw [List.length_drop]; omega) (by rw [List.length_drop]; omega)]

/-! ## From the receive queue to a message -/

/-- The sum `ikcp_peeksize` takes: up to the first segment with `frg` 0. -/
def fragmentsLength : List Seg → Nat
  | [] => 0
  | seg :: queue => seg.data.length + if seg.frg = 0 then 0 else fragmentsLength queue

/-- `ikcp_peeksize`. -/
def ikcpPeeksize (kcp : Ikcpcb) : Int :=
  match kcp.rcvQueue with
  | [] => -1
  | seg :: _ =>
    if seg.frg = 0 then seg.data.length
    else if kcp.rcvQueue.length < seg.frg + 1 then -1
    else fragmentsLength kcp.rcvQueue

/-- The merging loop of `ikcp_recv`: the bytes it copies and the queue it leaves. -/
def mergeFragments : List Seg → Bytes × List Seg
  | [] => ([], [])
  | seg :: queue =>
    if seg.frg = 0 then (seg.data, queue)
    else (seg.data ++ (mergeFragments queue).1, (mergeFragments queue).2)

/-- `ikcp_recv`: what it returns, what it copies to the caller's buffer, and
the control block. A negative `len` peeks. -/
def ikcpRecv (kcp : Ikcpcb) (len : Int) : Int × Bytes × Ikcpcb :=
  if kcp.rcvQueue = [] then (-1, [], kcp)
  else if ikcpPeeksize kcp < 0 then (-2, [], kcp)
  else if len.natAbs < ikcpPeeksize kcp then (-3, [], kcp)
  else
    let (data, queue) := mergeFragments kcp.rcvQueue
    let kcp := if len < 0 then kcp else { kcp with rcvQueue := queue }
    (data.length, data, kcp.moved)

/-! ## The message at the head of the queue -/

/-- A message's fragments: the segments through the first with `frg` 0. -/
def headFragments : List Seg → List Seg
  | [] => []
  | seg :: queue => seg :: if seg.frg = 0 then [] else headFragments queue

/-- The message at the head of the queue, once as many segments are queued as
its first one announces. -/
def headMessage : List Seg → Option Bytes
  | [] => none
  | seg :: queue =>
    if queue.length < seg.frg then none else some ((headFragments (seg :: queue)).flatMap Seg.data)

theorem ne_nil_of_headMessage {queue : List Seg} {m : Bytes} (h : headMessage queue = some m) : queue ≠ [] := by
  rintro rfl
  cases h

theorem headFragments_length_pos {queue : List Seg} (h : queue ≠ []) : 0 < (headFragments queue).length := by
  cases queue with
  | nil => exact absurd rfl h
  | cons seg queue => simp [headFragments]

theorem fragmentsLength_eq (queue : List Seg) :
    fragmentsLength queue = ((headFragments queue).flatMap Seg.data).length := by
  induction queue with
  | nil => rfl
  | cons seg queue ih =>
    simp only [fragmentsLength, headFragments, List.flatMap_cons, List.length_append]
    split
    · simp
    · rw [ih]

theorem mergeFragments_fst (queue : List Seg) :
    (mergeFragments queue).1 = (headFragments queue).flatMap Seg.data := by
  induction queue with
  | nil => rfl
  | cons seg queue ih =>
    simp only [mergeFragments, headFragments, List.flatMap_cons]
    split
    · simp
    · rw [ih]

theorem mergeFragments_snd (queue : List Seg) :
    headFragments queue ++ (mergeFragments queue).2 = queue := by
  induction queue with
  | nil => rfl
  | cons seg queue ih =>
    simp only [mergeFragments, headFragments]
    split
    · simp
    · simp [ih]

/-- `ikcp_peeksize` is the length of the head message, `-1` without one. -/
theorem ikcpPeeksize_eq (kcp : Ikcpcb) :
    ikcpPeeksize kcp = match headMessage kcp.rcvQueue with
      | none => -1
      | some m => (m.length : Int) := by
  unfold ikcpPeeksize
  cases hq : kcp.rcvQueue with
  | nil => rfl
  | cons seg queue =>
    simp only [headMessage, List.length_cons, Nat.add_lt_add_iff_right]
    by_cases h0 : seg.frg = 0
    · simp [h0, headFragments]
    · by_cases hl : queue.length < seg.frg
      · simp [h0, hl]
      · simp [h0, hl, fragmentsLength_eq]

/-- Asked for a complete head message, `ikcp_recv` copies exactly it. -/
theorem ikcpRecv_headMessage {kcp : Ikcpcb} {m : Bytes} (h : headMessage kcp.rcvQueue = some m) {len : Int}
    (hl : (m.length : Int) ≤ len) :
    ikcpRecv kcp len =
      ((m.length : Int), m, { kcp with rcvQueue := (mergeFragments kcp.rcvQueue).2 }.moved) := by
  have hp := ikcpPeeksize_eq kcp
  simp only [h] at hp
  have hne := ne_nil_of_headMessage h
  have hm : (mergeFragments kcp.rcvQueue).1 = m := by
    rw [mergeFragments_fst]
    cases hq : kcp.rcvQueue with
    | nil => exact absurd hq hne
    | cons seg queue =>
      rw [hq] at h
      simp only [headMessage] at h
      split at h
      · cases h
      · simpa using h
  unfold ikcpRecv
  rw [if_neg hne, hp, if_neg (by omega), if_neg (by omega)]
  simp only [hm, if_neg (show ¬ len < 0 by omega)]

end EyPS
