/-
`external/kcp/ikcp.c`, both sides: a message is cut into fragments, a fragment gets a
number and stays in `snd_buf` until the peer reports it, and what `ikcp_flush` sends is
acknowledgements, window probes and the segments that are due.

The receive side is `Ikcpcb`. Left out are the logging, the allocator hooks, `ts_recent`,
`ts_lastack` and the counter `xmit`, which nothing reads. `nsnd_que`, `nsnd_buf` and
`ackcount` are the lengths of the lists they count. The control block is one `ikcp_create`
made, so `stream` is 0 unless the caller sets it. Of `buffer` there is its size, and
`overrun` says that a write has left it: what the program does from there on is undefined.

Signed overflow in the round trip estimates, which a forged timestamp can reach, wraps.
-/
import EyPS.Ikcp

namespace EyPS

/-- `IKCPSEG` in `snd_queue`, where it has only what `ikcp_send` gives it. -/
structure Fragment where
  frg : Nat
  data : Bytes
  deriving DecidableEq

/-- `IKCPSEG` in `snd_buf`; `len` is `data.length`. -/
structure IkcpSeg where
  conv : UInt32
  token : UInt32
  cmd : UInt8
  frg : Nat
  wnd : UInt32
  ts : UInt32
  sn : UInt32
  una : UInt32
  resendts : UInt32
  rto : UInt32
  fastack : UInt32
  xmit : UInt32
  data : Bytes
  deriving DecidableEq

/-- `IKCPCB`. -/
structure Kcpcb extends Ikcpcb where
  mtu : UInt32
  mss : UInt32
  state : UInt32
  sndUna : UInt32
  sndNxt : UInt32
  ssthresh : UInt32
  rxRttval : Int32
  rxSrtt : Int32
  rxRto : Int32
  rxMinrto : Int32
  sndWnd : UInt32
  rmtWnd : UInt32
  cwnd : UInt32
  probe : UInt32
  current : UInt32
  interval : UInt32
  tsFlush : UInt32
  nodelay : UInt32
  updated : Bool
  tsProbe : UInt32
  probeWait : UInt32
  deadLink : UInt32
  incr : UInt32
  sndQueue : List Fragment
  sndBuf : List IkcpSeg
  acklist : List (UInt32 × UInt32)
  bufferSize : UInt32
  overrun : Bool
  fastresend : Int32
  fastlimit : Int32
  nocwnd : Int32
  stream : Int32
  deriving DecidableEq

def ikcpRtoNdl : Int32 := 30
def ikcpRtoMin : Int32 := 100
def ikcpRtoDef : Int32 := 200
def ikcpRtoMax : UInt32 := 60000
def ikcpAskSend : UInt32 := 1
def ikcpAskTell : UInt32 := 2
def ikcpWndSnd : UInt32 := 32
def ikcpMtuDef : UInt32 := 1400
def ikcpInterval : UInt32 := 100
def ikcpDeadlink : UInt32 := 20
def ikcpThreshInit : UInt32 := 2
def ikcpThreshMin : UInt32 := 2
def ikcpProbeInit : UInt32 := 7000
def ikcpProbeLimit : UInt32 := 120000
def ikcpFastackLimit : Int32 := 5

/-- `_ibound_` -/
def ibound (lower middle upper : UInt32) : UInt32 := min (max lower middle) upper

namespace Kcpcb

/-! ## Creation and settings -/

/-- The size that `buffer` is allocated with: a product in 32 bits. -/
def bufferFor (mtu : UInt32) : UInt32 := (mtu + UInt32.ofNat ikcpOverhead) * 3

/-- `ikcp_create`. -/
def create (conv token : UInt32) : Kcpcb :=
  { ikcpCreate conv token with
    mtu := ikcpMtuDef, mss := ikcpMtuDef - UInt32.ofNat ikcpOverhead, state := 0
    sndUna := 0, sndNxt := 0, ssthresh := ikcpThreshInit
    rxRttval := 0, rxSrtt := 0, rxRto := ikcpRtoDef, rxMinrto := ikcpRtoMin
    sndWnd := ikcpWndSnd, rmtWnd := ikcpWndRcv, cwnd := 0, probe := 0
    current := 0, interval := ikcpInterval, tsFlush := ikcpInterval, nodelay := 0, updated := false
    tsProbe := 0, probeWait := 0, deadLink := ikcpDeadlink, incr := 0
    sndQueue := [], sndBuf := [], acklist := []
    bufferSize := bufferFor ikcpMtuDef, overrun := false
    fastresend := 0, fastlimit := ikcpFastackLimit, nocwnd := 0, stream := 0 }

/-- `ikcp_setmtu`; the allocation of the new buffer succeeds. -/
def setmtu (kcp : Kcpcb) (mtu : Int32) : Int × Kcpcb :=
  if mtu < 50 ∨ mtu.toInt < ikcpOverhead then (-1, kcp)
  else
    (0, { kcp with
      mtu := mtu.toUInt32, mss := mtu.toUInt32 - UInt32.ofNat ikcpOverhead, bufferSize := bufferFor mtu.toUInt32 })

/-- How `ikcp_interval` and `ikcp_nodelay` bound an interval. -/
def clampInterval (interval : Int32) : UInt32 :=
  (if 5000 < interval then 5000 else if interval < 10 then 10 else interval).toUInt32

/-- `ikcp_interval`. -/
def setInterval (kcp : Kcpcb) (interval : Int32) : Kcpcb := { kcp with interval := clampInterval interval }

/-- `ikcp_nodelay`. -/
def setNodelay (kcp : Kcpcb) (nodelay interval resend nc : Int32) : Kcpcb :=
  let kcp :=
    if 0 ≤ nodelay then
      { kcp with nodelay := nodelay.toUInt32, rxMinrto := if nodelay ≠ 0 then ikcpRtoNdl else ikcpRtoMin }
    else kcp
  let kcp := if 0 ≤ interval then { kcp with interval := clampInterval interval } else kcp
  let kcp := if 0 ≤ resend then { kcp with fastresend := resend } else kcp
  if 0 ≤ nc then { kcp with nocwnd := nc } else kcp

/-- `ikcp_wndsize`. -/
def wndsize (kcp : Kcpcb) (sndwnd rcvwnd : Int32) : Kcpcb :=
  let kcp := if 0 < sndwnd then { kcp with sndWnd := sndwnd.toUInt32 } else kcp
  if 0 < rcvwnd then { kcp with rcvWnd := max rcvwnd.toUInt32 ikcpWndRcv } else kcp

/-- `ikcp_waitsnd`. -/
def waitsnd (kcp : Kcpcb) : Nat := kcp.sndBuf.length + kcp.sndQueue.length

/-! ## Sending a message -/

/-- The loop of `ikcp_send` that cuts `count` fragments. -/
def fragment (mss : Nat) (stream : Int32) : Nat → Bytes → List Fragment
  | 0, _ => []
  | n + 1, buffer => ⟨if stream = 0 then n else 0, buffer.take mss⟩ :: fragment mss stream n (buffer.drop mss)

/-- How many fragments `ikcp_send` cuts. -/
def fragmentCount (mss len : Nat) : Nat :=
  if len ≤ mss then 1 else (len + mss - 1) / mss

/-- Streaming mode fills the last queued segment up first. -/
def extendLast (kcp : Kcpcb) (buffer : Bytes) : Kcpcb × Bytes :=
  match kcp.sndQueue.getLast? with
  | none => (kcp, buffer)
  | some old =>
    if old.data.length < kcp.mss.toNat then
      let extend := min buffer.length (kcp.mss.toNat - old.data.length)
      ({ kcp with sndQueue := kcp.sndQueue.dropLast ++ [⟨0, old.data ++ buffer.take extend⟩] },
        buffer.drop extend)
    else (kcp, buffer)

/-- What `ikcp_send` does with the bytes that are left. -/
def sendFragments (kcp : Kcpcb) (buffer : Bytes) : Int × Kcpcb :=
  let count := fragmentCount kcp.mss.toNat buffer.length
  if ikcpWndRcv.toNat ≤ count then (-2, kcp)
  else
    let count := if count = 0 then 1 else count
    (0, { kcp with sndQueue := kcp.sndQueue ++ fragment kcp.mss.toNat kcp.stream count buffer })

/-- `ikcp_send` of the first `len` bytes of `buffer`. -/
def send (kcp : Kcpcb) (buffer : Bytes) (len : Int) : Int × Kcpcb :=
  if len < 0 then (-1, kcp)
  else
    let buffer := buffer.take len.toNat
    if kcp.stream ≠ 0 then
      let (kcp, buffer) := kcp.extendLast buffer
      if buffer = [] then (0, kcp) else kcp.sendFragments buffer
    else kcp.sendFragments buffer

/-! ## Receiving a message -/

/-- `ikcp_recv`: as on the receive side, and when it makes room in a full queue the peer is
to be told. -/
def recv (kcp : Kcpcb) (len : Int) : Int × Bytes × Kcpcb :=
  let (ret, data, rcv) := ikcpRecv kcp.toIkcpcb len
  if ret < 0 then (ret, data, kcp)
  else
    let recover := kcp.rcvWnd.toNat ≤ kcp.rcvQueue.length
    let kcp := { kcp with toIkcpcb := rcv }
    if kcp.rcvQueue.length < kcp.rcvWnd.toNat ∧ recover then
      (ret, data, { kcp with probe := kcp.probe ||| ikcpAskTell })
    else (ret, data, kcp)

/-! ## Acknowledgements -/

/-- `ikcp_update_ack`. -/
def updateAck (kcp : Kcpcb) (rtt : Int32) : Kcpcb :=
  let kcp :=
    if kcp.rxSrtt = 0 then { kcp with rxSrtt := rtt, rxRttval := rtt / 2 }
    else
      let delta := (rtt - kcp.rxSrtt).toInt.natAbs
      let srtt := (7 * kcp.rxSrtt + rtt) / 8
      { kcp with
        rxRttval := Int32.ofInt (((3 * kcp.rxRttval).toInt + delta).tdiv 4)
        rxSrtt := if srtt < 1 then 1 else srtt }
  let rto := kcp.rxSrtt.toUInt32 + max kcp.interval (4 * kcp.rxRttval).toUInt32
  { kcp with rxRto := (ibound kcp.rxMinrto.toUInt32 rto ikcpRtoMax).toInt32 }

/-- `ikcp_shrink_buf`. -/
def shrinkBuf (kcp : Kcpcb) : Kcpcb :=
  { kcp with sndUna := match kcp.sndBuf with
      | seg :: _ => seg.sn
      | [] => kcp.sndNxt }

/-- The loop of `ikcp_parse_ack`. -/
def removeAcked (sn : UInt32) : List IkcpSeg → List IkcpSeg
  | [] => []
  | seg :: buf =>
    if sn = seg.sn then buf
    else if itimediff sn seg.sn < 0 then seg :: buf
    else seg :: removeAcked sn buf

/-- `ikcp_parse_ack`. -/
def parseAck (kcp : Kcpcb) (sn : UInt32) : Kcpcb :=
  if itimediff sn kcp.sndUna < 0 ∨ 0 ≤ itimediff sn kcp.sndNxt then kcp
  else { kcp with sndBuf := removeAcked sn kcp.sndBuf }

/-- `ikcp_parse_una`. -/
def parseUna (kcp : Kcpcb) (una : UInt32) : Kcpcb :=
  { kcp with sndBuf := kcp.sndBuf.dropWhile fun seg => 0 < itimediff una seg.sn }

/-- The loop of `ikcp_parse_fastack`. -/
def countFastack (sn : UInt32) : List IkcpSeg → List IkcpSeg
  | [] => []
  | seg :: buf =>
    if itimediff sn seg.sn < 0 then seg :: buf
    else (if sn ≠ seg.sn then { seg with fastack := seg.fastack + 1 } else seg) :: countFastack sn buf

/-- `ikcp_parse_fastack`; its `ts` is read only under `IKCP_FASTACK_CONSERVE`. -/
def parseFastack (kcp : Kcpcb) (sn : UInt32) : Kcpcb :=
  if itimediff sn kcp.sndUna < 0 ∨ 0 ≤ itimediff sn kcp.sndNxt then kcp
  else { kcp with sndBuf := countFastack sn kcp.sndBuf }

/-- `ikcp_ack_push`. -/
def ackPush (kcp : Kcpcb) (sn ts : UInt32) : Kcpcb := { kcp with acklist := kcp.acklist ++ [(sn, ts)] }

/-! ## A datagram -/

/-- A segment's header. -/
structure SegHeader where
  conv : UInt32
  token : UInt32
  cmd : UInt8
  frg : UInt8
  wnd : UInt16
  ts : UInt32
  sn : UInt32
  una : UInt32
  len : UInt32
  deriving DecidableEq

def decode16u (data : Bytes) : UInt16 × Bytes := (UInt16.ofNat (fromLE (data.take 2)), data.drop 2)

/-- The nine reads at the head of the loop of `ikcp_input`. -/
def decodeHeader (data : Bytes) : SegHeader × Bytes :=
  let (conv, data) := decode32u data
  let (token, data) := decode32u data
  let (cmd, data) := decode8u data
  let (frg, data) := decode8u data
  let (wnd, data) := decode16u data
  let (ts, data) := decode32u data
  let (sn, data) := decode32u data
  let (una, data) := decode32u data
  let (len, data) := decode32u data
  (⟨conv, token, cmd, frg, wnd, ts, sn, una, len⟩, data)

/-- The `IKCP_CMD_ACK` branch of `ikcp_input`. -/
def onAck (kcp : Kcpcb) (sn ts : UInt32) : Kcpcb :=
  let kcp :=
    if 0 ≤ itimediff kcp.current ts then kcp.updateAck (Int32.ofInt (itimediff kcp.current ts)) else kcp
  (kcp.parseAck sn).shrinkBuf

/-- The `IKCP_CMD_PUSH` branch. -/
def onPush (kcp : Kcpcb) (ts : UInt32) (seg : Seg) : Kcpcb :=
  if itimediff seg.sn (kcp.rcvNxt + kcp.rcvWnd) < 0 then
    let kcp := kcp.ackPush seg.sn ts
    if 0 ≤ itimediff seg.sn kcp.rcvNxt then { kcp with toIkcpcb := ikcpParseData kcp.toIkcpcb seg } else kcp
  else kcp

/-- What `ikcp_input` takes from the header of every segment. -/
def takeHeader (kcp : Kcpcb) (head : SegHeader) : Kcpcb :=
  ({ kcp with rmtWnd := head.wnd.toUInt32 }.parseUna head.una).shrinkBuf

/-- What `ikcp_input` does with one segment of a known command. -/
def inputSeg (kcp : Kcpcb) (head : SegHeader) (data : Bytes) : Kcpcb :=
  let kcp := kcp.takeHeader head
  if head.cmd = ikcpCmdAck then kcp.onAck head.sn head.ts
  else if head.cmd = ikcpCmdPush then kcp.onPush head.ts ⟨head.frg.toNat, head.sn, data⟩
  else if head.cmd = ikcpCmdWask then { kcp with probe := kcp.probe ||| ikcpAskTell }
  else kcp

/-- `flag` and `maxack`: the greatest number acknowledged in the datagram. -/
def maxAck (maxack : Option UInt32) (head : SegHeader) : Option UInt32 :=
  if head.cmd = ikcpCmdAck then
    match maxack with
    | none => some head.sn
    | some m => if 0 < itimediff head.sn m then some head.sn else some m
  else maxack

/-- The `while (1)` of `ikcp_input`, its fuel the data's length. -/
def inputLoop : Nat → Kcpcb → Option UInt32 → Bytes → Int × Kcpcb × Option UInt32
  | 0, kcp, maxack, _ => (0, kcp, maxack)
  | fuel + 1, kcp, maxack, data =>
    if data.length < ikcpOverhead then (0, kcp, maxack)
    else
      let (head, data) := decodeHeader data
      if head.conv ≠ kcp.conv ∨ head.token ≠ kcp.token then (-1, kcp, maxack)
      else if data.length < head.len.toNat ∨ 2 ^ 31 ≤ head.len.toNat then (-2, kcp, maxack)
      else if head.cmd ≠ ikcpCmdPush ∧ head.cmd ≠ ikcpCmdAck ∧ head.cmd ≠ ikcpCmdWask ∧
          head.cmd ≠ ikcpCmdWins then (-3, kcp, maxack)
      else
        inputLoop fuel (kcp.inputSeg head (data.take head.len.toNat)) (maxAck maxack head)
          (data.drop head.len.toNat)

/-- A step of the congestion window: slow start up to `ssthresh`, then avoidance. -/
def stepCwnd (kcp : Kcpcb) : Kcpcb :=
  let mss := kcp.mss
  if kcp.cwnd < kcp.ssthresh then { kcp with cwnd := kcp.cwnd + 1, incr := kcp.incr + mss }
  else
    let incr := if kcp.incr < mss then mss else kcp.incr
    let incr := incr + (mss * mss / incr + mss / 16)
    let cwnd :=
      if (kcp.cwnd + 1) * mss ≤ incr then (incr + mss - 1) / (if 0 < mss then mss else 1) else kcp.cwnd
    { kcp with incr, cwnd }

/-- How the congestion window grows when `snd_una` has moved: up to the peer's window. -/
def growCwnd (kcp : Kcpcb) : Kcpcb :=
  if kcp.cwnd < kcp.rmtWnd then
    let kcp := kcp.stepCwnd
    if kcp.rmtWnd < kcp.cwnd then { kcp with cwnd := kcp.rmtWnd, incr := kcp.rmtWnd * kcp.mss } else kcp
  else kcp

/-- What follows the loop of `ikcp_input`. -/
def afterInput (kcp : Kcpcb) (prevUna : UInt32) (maxack : Option UInt32) : Kcpcb :=
  let kcp := match maxack with
    | none => kcp
    | some sn => kcp.parseFastack sn
  if 0 < itimediff kcp.sndUna prevUna then kcp.growCwnd else kcp

/-- `ikcp_input`. -/
def input (kcp : Kcpcb) (data : Bytes) : Int × Kcpcb :=
  if data.length < ikcpOverhead then (-1, kcp)
  else
    let (ret, kcp', maxack) := inputLoop data.length kcp none data
    if ret < 0 then (ret, kcp') else (ret, kcp'.afterInput kcp.sndUna maxack)

end Kcpcb

end EyPS
